import Styrolite.Spec.Schedule

/-!
# The namespaces of the child

The namespaces after each part of a `wrap`, as a function of those before it, and
what follows at `execvpe`: the child is in a new namespace of each requested kind
and in the caller's of every other, each kind was unshared once, and while the
mount tree was set up the child was in the user namespace that owns it.
-/

namespace Styrolite

open Prog Kernel

namespace CreateRequest

variable {req : CreateRequest} {root child : Int} {s₀ : World}
  {cfg : Config calls Int World Err Unit} {h : List Event} {c : Call}

/-! ## At the fork -/

/-- The namespaces right after the fork. -/
def forked (req : CreateRequest) (s : NsState) (root child : Int) : NsState :=
  (s.unshare root (Namespace.cloneFlags req.firstLevelNs)).fork root child

/-- The first `unshare` makes what is asked for, but for the user namespace in the two-stage
    mode. -/
theorem mem_firstLevelNs {ns : Namespace} :
    ns ∈ req.firstLevelNs ↔ ns ∈ req.targetNs ∧ (req.skipTwoStage = true ∨ ns ≠ .user) := by
  unfold firstLevelNs
  cases req.skipTwoStage <;> simp

/-- It takes one number. -/
@[simp] theorem forked_serial (s : NsState) : (req.forked s root child).serial = s.serial + 1 :=
  rfl

/-- What the child is in after the fork. -/
@[simp] theorem forked_ns_child (s : NsState) (ns : Namespace) :
    (req.forked s root child).ns child ns =
      if ns ∈ req.firstLevelNs then s.serial + 1 else s.forChildren root ns := by
  simp [forked, NsState.fork, NsState.unshare]

/-- What the supervisor is in after the fork. -/
@[simp] theorem forked_ns_root (s : NsState) (hne : child ≠ root) (ns : Namespace) :
    (req.forked s root child).ns root ns =
      if ns ∈ req.firstLevelNs ∧ ¬ ns.deferred then s.serial + 1 else s.ns root ns := by
  simp [forked, NsState.fork, NsState.unshare, Function.update_of_ne hne.symm]

/-- In a run from an initial state, a namespace that the fork does not enter is shared. -/
theorem forked_ns_mount (req : CreateRequest) (hs₀ : s₀.Initial root) (hne : child ≠ root) {ns : Namespace}
    (hns : ¬ ns.deferred) :
    (req.forked s₀.ns root child).ns child ns = (req.forked s₀.ns root child).ns root ns := by
  simp [hne, hns, hs₀.forChildren]

/-- Right after the fork, `/proc` still shows the supervisor's process-id namespace. -/
theorem forked_procView (hs₀ : s₀.Initial root) :
    (req.forked s₀.ns root child).procView ((req.forked s₀.ns root child).ns child .mount) =
      s₀.ns.ns root .pid := by
  rw [forked_ns_child, hs₀.forChildren, ← hs₀.procView]
  by_cases hm : .mount ∈ req.firstLevelNs
  · simp [hm, forked, NsState.fork, NsState.unshare]
  · simp [hm, forked, NsState.fork, NsState.unshare, Function.update_apply]

/-- The user namespace the child is forked into owns its mount namespace, if that is new. -/
theorem forked_owner (hs₀ : s₀.Initial root) (hm : .mount ∈ req.targetNs) :
    (req.forked s₀.ns root child).owner .mount ((req.forked s₀.ns root child).ns child .mount) =
      (req.forked s₀.ns root child).ns child .user := by
  have hm' : .mount ∈ req.firstLevelNs := mem_firstLevelNs.2 ⟨hm, .inr (by decide)⟩
  simp [hm', forked, NsState.fork, NsState.unshare, hs₀.forChildren]

/-! ## The child's own changes -/

/-- The namespaces after the child's two-stage work. -/
def staged (req : CreateRequest) (s : NsState) (child : Int) : NsState :=
  if req.skipTwoStage then s else
    let s := if .mount ∈ req.targetNs then s.pivotRoot child else s
    if .user ∈ req.targetNs then s.unshare child (Namespace.cloneFlags [.user]) else s

/-- The namespaces after the child's mount work in the other mode, and its score. -/
def settled (req : CreateRequest) (s : NsState) (child : Int) : NsState :=
  let s := if req.skipTwoStage ∧ .mount ∈ req.targetNs then s.pivotRoot child else s
  s.setScore child req.exec.oomScoreAdj

/-- What the child is in after its stage. -/
theorem stage_ns (s : NsState) (hr : req.stage.Runs h (.ok ())) :
    s.after child h = req.staged s child := by
  unfold staged
  split
  · next hskip => rw [stage_runs_skip hskip hr, NsState.after_nil]
  · next hskip =>
    obtain ⟨hp, hu, rfl, hpr, rfl⟩ := stage_runs (by simpa using hskip) hr
    rw [NsState.after_append, pivotIfMount_ns s child hpr]
    by_cases hu : .user ∈ req.targetNs
    · simp only [hu, if_true, NsState.after_cons, NsState.after_nil]
      rfl
    · simp only [hu, if_false, NsState.after_nil]

/-- The signal to the supervisor moves the child nowhere. -/
theorem childSignal_ns (s : NsState) (hr : req.childSignal.Runs h (.ok ())) :
    s.after child h = req.staged s child := by
  obtain ⟨h₁, h₂, rfl, hreset, hstage⟩ := childSignal_runs hr
  rw [NsState.after_append, NsState.after_append,
    s.after_of_uses child (orExit_uses resetChildSignalHandlers_uses) (by decide) hreset,
    stage_ns s hstage]
  rfl

/-- Nor does anything up to its `execvpe`, but for the pivot and the score. -/
theorem childRest_ns (s : NsState) {program : String} {args env : List String}
    (hat : req.childRest.At h (.execvpe program args env)) :
    s.after child h = req.settled s child := by
  -- The parts that precede the `execvpe`, of which only the first touches the namespaces
  obtain ⟨hp, ho, hc, hq, he, rfl, hpr, hor, hcr, hqr, k, her⟩ := childRest_at_exec hat
  have hpivot : s.after child hp =
      if req.skipTwoStage ∧ .mount ∈ req.targetNs then s.pivotRoot child else s := by
    obtain ⟨hin, hout⟩ := runs_when_ok.1 hpr
    by_cases hskip : req.skipTwoStage = true
    · simp only [hskip, true_and, pivotIfMount_ns s child (hin hskip)]
    · rw [hout hskip]
      simp [hskip]
  simp only [NsState.after_append, hpivot, applyOomScore_ns _ _ hor,
    NsState.after_of_uses _ child (setupConsole_uses _) (by decide) hcr,
    NsState.after_of_uses _ child (preexecPrep_uses _ _) (by decide) hqr,
    NsState.after_of_uses _ child req.exec.execute_uses (by decide) her]
  rfl

/-- The namespaces when the child is about to execute the workload. -/
theorem childMain_ns (s : NsState) {program : String} {args env : List String}
    (hat : req.childMain.At h (.execvpe program args env)) :
    s.after child h = req.settled (req.staged s child) child := by
  obtain ⟨hs, n, h', rfl, hsig, hrest⟩ := childMain_at_late hat (by simp [Call.kind, lateKinds])
  rw [NsState.after_append, NsState.after_cons, childSignal_ns s hsig, childRest_ns _ hrest]
  rfl

/-- A user namespace is entered at once. -/
private theorem user_not_deferred {ns : Namespace} : ns = .user ∧ ¬ ns.deferred ↔ ns = .user :=
  ⟨And.left, fun hns => ⟨hns, by rw [hns]; decide⟩⟩

/-- In the two-stage mode the child makes a user namespace of its own. -/
@[simp] theorem staged_ns (s : NsState) (ns : Namespace) :
    (req.staged s child).ns child ns =
      if req.skipTwoStage = false ∧ ns = .user ∧ .user ∈ req.targetNs then s.serial + 1
      else s.ns child ns := by
  unfold staged
  cases req.skipTwoStage <;> by_cases hm : .mount ∈ req.targetNs <;>
    by_cases hu : .user ∈ req.targetNs <;>
    simp [hm, hu, NsState.unshare, NsState.pivotRoot, user_not_deferred]

/-- A pivot and a score change no membership. -/
@[simp] theorem settled_ns (s : NsState) : (req.settled s child).ns = s.ns := by
  unfold settled
  cases req.exec.oomScoreAdj <;> split <;> rfl

/-- The child's namespace of a kind when it executes the workload. -/
theorem execvpe_ns (hs₀ : s₀.Initial root) (ns : Namespace) :
    (req.settled (req.staged (req.forked s₀.ns root child) child) child).ns child ns =
      if ns ∈ req.targetNs then
        if ns = .user ∧ req.skipTwoStage = false then s₀.ns.serial + 2 else s₀.ns.serial + 1
      else s₀.ns.ns root ns := by
  simp only [settled_ns, staged_ns, forked_ns_child, forked_serial, mem_firstLevelNs,
    hs₀.forChildren]
  by_cases hu : ns = .user
  · subst hu
    cases req.skipTwoStage <;> by_cases hin : .user ∈ req.targetNs <;> simp [hin]
  · simp [hu]

/-! ## Counting calls in the trace -/

/-- The call is an `unshare` that names the kind. -/
def unsharesKind (ns : Namespace) : Call → Bool
  | .unshare flags => ns.inFlags flags
  | _ => false

/-- The call marks the start of `pivot_fs`. -/
def entersPivotFs : Call → Bool
  | .enter .pivotFs => true
  | _ => false

/-- A kind is unshared by a call on namespaces. -/
theorem unsharesKind_kind {ns : Namespace} {c : Call} (hc : unsharesKind ns c = true) :
    c.kind = .ns := by
  unfold unsharesKind at hc
  split at hc
  · rfl
  · exact nomatch hc

/-- `pivot_fs` is entered by its own mark. -/
theorem entersPivotFs_kind {c : Call} (hc : entersPivotFs c = true) : c.kind = .enterPivot := by
  unfold entersPivotFs at hc
  split at hc
  · rfl
  · exact nomatch hc

/-- How many calls of the history satisfy `f`. -/
def count (f : Call → Bool) (h : List Event) : Nat := h.countP fun e => f e.call

/-- Nothing is counted in no history. -/
@[simp] theorem count_nil (f : Call → Bool) : count f [] = 0 := rfl

/-- Counts add up. -/
@[simp] theorem count_append (f : Call → Bool) (h₁ h₂ : List Event) :
    count f (h₁ ++ h₂) = count f h₁ + count f h₂ := List.countP_append

/-- The first event counts, or does not. -/
@[simp] theorem count_cons (f : Call → Bool) (e : Event) (h : List Event) :
    count f (e :: h) = count f h + if f e.call then 1 else 0 := List.countP_cons

/-- A part of a run makes no call of a kind outside its footprint. -/
theorem count_eq_zero {α : Type} {f : Call → Bool} {κ : Call.Kind}
    (hf : ∀ c, f c = true → c.kind = κ) {p q : Sys α} {ks : List Call.Kind}
    (hp : p.Uses (Call.within ks)) (hκ : κ ∉ ks) (hr : p.Reaches h q) : count f h = 0 := by
  refine List.countP_eq_zero.2 fun e he hfe => hκ ?_
  rw [← hf _ hfe]
  exact hp.mem (e := e) hr he

/-- The calls in the trace of a pair: those before the fork, and those of each since. -/
theorem Pair.count_trace {h₀ h₁ h₂ : List Event} {p₁ p₂ : Sys Unit} {f : Call → Bool}
    (hp : req.Pair root s₀ cfg child h₀ h₁ h₂ p₁ p₂) (hfork : f .fork = false) :
    (cfg.trace.countP fun x => f x.2.call) = count f h₀ + count f h₁ + count f h₂ := by
  rw [hp.trace.countP_eq]
  simp only [List.countP_append, List.countP_cons, List.countP_map, hfork, count]
  simp [Function.comp_def, Nat.add_assoc]

/-- The prologue unshares each of its kinds once. -/
theorem prologue_count (ns : Namespace) (hr : req.prologue.Runs h (.ok ())) :
    count (unsharesKind ns) h = if ns ∈ req.firstLevelNs then 1 else 0 := by
  obtain ⟨h₁, h₂, rfl, ⟨r, hcg⟩, hset⟩ := prologue_runs hr
  rw [count_append, count_cons,
    count_eq_zero (fun _ => unsharesKind_kind) (.attempt req.prepareCgroup_uses) (by decide) hcg,
    count_eq_zero (fun _ => unsharesKind_kind) req.setup_uses (by decide) hset]
  simp [unsharesKind]

/-- `pivot_fs` is entered once in each of its runs. -/
theorem pivotIfMount_count (hr : req.pivotIfMount.Runs h (.ok ())) :
    count entersPivotFs h = if .mount ∈ req.targetNs then 1 else 0 := by
  obtain ⟨hin, hout⟩ := runs_when_ok.1 hr
  split
  · next hm =>
    obtain ⟨u, h', rfl, hbody⟩ := runs_sys_bind.1 (hin hm)
    rw [count_cons,
      count_eq_zero (fun _ => entersPivotFs_kind) req.pivotFsBody_uses (by decide) hbody]
    rfl
  · next hm => rw [hout hm, count_nil]

/-- In the two-stage mode the child unshares the user namespace, and enters `pivot_fs`, once. -/
theorem stage_count (ns : Namespace) (hr : req.stage.Runs h (.ok ())) :
    count (unsharesKind ns) h =
        (if req.skipTwoStage = false ∧ ns = .user ∧ .user ∈ req.targetNs then 1 else 0) ∧
      count entersPivotFs h =
        if req.skipTwoStage = false ∧ .mount ∈ req.targetNs then 1 else 0 := by
  -- Without the first stage nothing is done
  cases hskip : req.skipTwoStage with
  | true =>
    rw [stage_runs_skip hskip hr]
    simp
  | false =>
    obtain ⟨hp, hu, rfl, hpr, rfl⟩ := stage_runs hskip hr
    rw [count_append, count_append, pivotIfMount_count hpr,
      count_eq_zero (fun _ => unsharesKind_kind) req.pivotIfMount_uses (by decide) hpr]
    by_cases hu : .user ∈ req.targetNs <;> simp [hu, unsharesKind, entersPivotFs]

/-- The `unshare`s and mount work of the child up to the workload. -/
theorem childMain_count (ns : Namespace) {program : String} {args env : List String}
    (hat : req.childMain.At h (.execvpe program args env)) :
    count (unsharesKind ns) h =
        (if req.skipTwoStage = false ∧ ns = .user ∧ .user ∈ req.targetNs then 1 else 0) ∧
      count entersPivotFs h = if .mount ∈ req.targetNs then 1 else 0 := by
  -- The parts of the child's run
  obtain ⟨hs, n, h', rfl, hsig, hrest⟩ := childMain_at_late hat (by simp [Call.kind, lateKinds])
  obtain ⟨h₁, h₂, rfl, hreset, hstage⟩ := childSignal_runs hsig
  obtain ⟨hp, ho, hc, hq, he, rfl, hpr, hor, hcr, hqr, k, her⟩ := childRest_at_exec hrest
  -- The other mode enters `pivot_fs` after the release
  have hskipped : count entersPivotFs hp =
      if req.skipTwoStage ∧ .mount ∈ req.targetNs then 1 else 0 := by
    obtain ⟨hin, hout⟩ := runs_when_ok.1 hpr
    by_cases hskip : req.skipTwoStage = true
    · simp only [hskip, true_and, pivotIfMount_count (hin hskip)]
    · rw [hout hskip]
      simp [hskip]
  obtain ⟨hu, hpv⟩ := stage_count ns hstage
  have hreset_uses := orExit_uses resetChildSignalHandlers_uses
  have hmount_uses : (when req.skipTwoStage req.pivotIfMount).Uses (Call.within _) :=
    .when fun _ => req.pivotIfMount_uses
  constructor
  · -- All `unshare`s are in the part before the signal
    have hf : ∀ c, unsharesKind ns c = true → c.kind = .ns := fun _ => unsharesKind_kind
    simp only [count_append, count_cons, count_nil, hu,
      count_eq_zero hf hreset_uses (by decide) hreset,
      count_eq_zero hf hmount_uses (by decide) hpr,
      count_eq_zero hf (applyOomScore_uses _) (by decide) hor,
      count_eq_zero hf (setupConsole_uses _) (by decide) hcr,
      count_eq_zero hf (preexecPrep_uses _ _) (by decide) hqr,
      count_eq_zero hf req.exec.execute_uses (by decide) her]
    simp [unsharesKind]
  · -- `pivot_fs` is entered before the signal or after the release, by the mode
    have hf : ∀ c, entersPivotFs c = true → c.kind = .enterPivot := fun _ => entersPivotFs_kind
    simp only [count_append, count_cons, count_nil, hpv, hskipped,
      count_eq_zero hf hreset_uses (by decide) hreset,
      count_eq_zero hf (applyOomScore_uses _) (by decide) hor,
      count_eq_zero hf (setupConsole_uses _) (by decide) hcr,
      count_eq_zero hf (preexecPrep_uses _ _) (by decide) hqr,
      count_eq_zero hf req.exec.execute_uses (by decide) her]
    cases req.skipTwoStage <;> simp [entersPivotFs]

/-! ## While `pivot_fs` runs -/

/-- The mark has a kind of its own. -/
private theorem enterPivot_kind : (Call.enter .pivotFs).kind ∈ [.enterPivot] := by
  simp [Call.kind]

/-- `pivot_fs` is entered at once, if there is a mount namespace. -/
theorem pivotIfMount_at_enter (hat : req.pivotIfMount.At h (.enter .pivotFs)) :
    .mount ∈ req.targetNs ∧ h = [] := by
  obtain ⟨hm, hat⟩ := at_when.1 hat
  rcases at_sys_bind.1 hat with ⟨rfl, -⟩ | ⟨_, h', -, hbody⟩
  · exact ⟨hm, rfl⟩
  · exact absurd hbody (req.pivotFsBody_uses.not_at (by decide) enterPivot_kind)

/-- So it is in the stage. -/
theorem stage_at_enter (hat : req.stage.At h (.enter .pivotFs)) :
    .mount ∈ req.targetNs ∧ h = [] := by
  rcases at_bind.1 (at_when.1 hat).2 with hat' | ⟨_, h₁, h₂, -, hat', -⟩
  · exact pivotIfMount_at_enter hat'
  · exact absurd (at_when.1 hat').2 ((unshare_uses _).not_at (by decide) enterPivot_kind)

/-- Nothing on the namespaces comes before the mount work. -/
theorem childMain_at_enter (hat : req.childMain.At h (.enter .pivotFs)) :
    .mount ∈ req.targetNs ∧ ∀ e ∈ h, e.call.kind ∉ nsKinds := by
  have hreset_uses := orExit_uses resetChildSignalHandlers_uses
  -- The handlers that are reset first have to do with signals only
  have hsignal : ∀ {h₁ : List Event}, (orExit resetChildSignalHandlers).Runs h₁ (.ok ()) →
      ∀ e ∈ h₁, e.call.kind ∉ nsKinds := fun hr e he =>
    (by decide : ∀ k ∈ [Call.Kind.signal], k ∉ nsKinds) _ (hreset_uses.mem (e := e) hr he)
  rcases at_bind.1 hat with hat₁ | ⟨⟨⟩, hs, _, hsig, hat₁, rfl⟩
  · -- the two-stage mode, before the signal
    rcases at_bind.1 hat₁ with hat₂ | ⟨⟨⟩, h₁, _, hreset, hat₂, rfl⟩
    · exact absurd hat₂ (hreset_uses.not_at (by decide) enterPivot_kind)
    rcases at_bind.1 hat₂ with hat₃ | ⟨⟨⟩, _, h₃, -, hat₃, -⟩
    · obtain ⟨hm, rfl⟩ := stage_at_enter hat₃
      rw [List.append_nil]
      exact ⟨hm, hsignal hreset⟩
    · simp at hat₃
  · -- the other mode, after the release
    simp only [at_sys_bind, at_check_bind, reduceCtorEq, and_false, false_or] at hat₁
    obtain ⟨_, h₂, rfl, n, rfl, hat₂⟩ := hat₁
    rcases at_bind.1 hat₂ with hat₃ | ⟨_, _, h₃, -, hat₃, -⟩
    · obtain ⟨hskip, hat₄⟩ := at_when.1 hat₃
      obtain ⟨hm, rfl⟩ := pivotIfMount_at_enter hat₄
      obtain ⟨h₁, h₂, rfl, hreset, hstage⟩ := childSignal_runs hsig
      obtain rfl := stage_runs_skip hskip hstage
      refine ⟨hm, fun e he => ?_⟩
      simp only [List.nil_append, List.append_assoc, List.cons_append, List.mem_append,
        List.mem_cons, List.not_mem_nil, or_false] at he
      rcases he with he | rfl | rfl
      · exact hsignal hreset e he
      · simp [Call.kind, nsKinds]
      · simp [Call.kind, nsKinds]
    · exact absurd hat₃ (req.childTail_uses.not_at (by decide) enterPivot_kind)

/-- A run of `pivot_fs` in the child: what comes before it has not changed the namespaces, and
    it changes at most what is at `/proc`. -/
theorem childMain_inside_pivotFs {p : Sys Unit} {h₁ h₂ : List Event}
    (hr : req.childMain.Reaches (h₁ ++ h₂) p) (hne : h₂ ≠ []) (hat : req.pivotFs.At h₂ c)
    (s : NsState) :
    .mount ∈ req.targetNs ∧
      (s.after child (h₁ ++ h₂) = s ∨ s.after child (h₁ ++ h₂) = s.pivotRoot child) := by
  rcases at_sys_bind.1 hat with ⟨rfl, -⟩ | ⟨_, h₃, rfl, -⟩
  · exact absurd rfl hne
  obtain ⟨hm, hbefore⟩ := childMain_at_enter hr.at_of_split
  refine ⟨hm, s.after_pivots child fun e he hk => ?_⟩
  rcases List.mem_append.1 he with he | he
  · exact absurd hk (hbefore e he)
  · obtain ⟨k, hreach⟩ := hat
    have hin : e.call.kind ∈ _ := req.pivotFs_uses.mem (e := e) hreach he
    revert hk hin
    cases e.call.kind <;> decide

/-! ## Main theorem -/

/-- The child's history is where the mount work is. -/
private theorem inside_suffix {h₀ h₁ h₂ hx : List Event} {a : Except Errno ForkResult}
    (heq : h₀ ++ ⟨.fork, a⟩ :: h₂ = h₁ ++ hx) (hat : req.pivotFs.At hx c) (hne : hx ≠ [])
    (hno : ∀ e ∈ h₀, e.call.kind ≠ .enterPivot) : ∃ h₃, h₂ = h₃ ++ hx := by
  rcases at_sys_bind.1 hat with ⟨rfl, -⟩ | ⟨_, h₄, rfl, -⟩
  · exact absurd rfl hne
  rcases List.append_eq_append_iff.1 heq with ⟨h₅, -, hsuf⟩ | ⟨h₅, rfl, hsuf⟩
  · cases h₅ with
    | nil => cases hsuf
    | cons e h₅ => cases hsuf; exact ⟨h₅, rfl⟩
  · cases h₅ with
    | nil => cases hsuf
    | cons e h₅ =>
      cases hsuf
      exact absurd rfl (hno _ (List.mem_append_right _ List.mem_cons_self))

/-- The namespaces of a `wrap`. In every configuration in which a process is about to execute
    the workload, it is in a namespace created in this run of each requested kind and in the
    caller's namespace of every other kind; each requested kind was named in one `unshare` and
    no other in any; and `pivot_fs` was entered once, and ended well, if a mount namespace was
    requested, and else never. Whenever a process is inside `pivot_fs`, its user namespace owns
    its mount namespace. -/
theorem wrap_namespaces (hs₀ : s₀.Initial root) (hr : linux.Reachable root req.wrap s₀ cfg) :
    (∀ pid h program args env k,
      cfg.procs pid = some ⟨h, .call (I := calls) (.execvpe program args env) k⟩ →
      (∀ ns, (ns ∈ req.targetNs → s₀.ns.serial < cfg.state.ns.ns pid ns) ∧
        (ns ∉ req.targetNs → cfg.state.ns.ns pid ns = s₀.ns.ns root ns)) ∧
      (∀ ns, (cfg.trace.countP fun x => unsharesKind ns x.2.call) =
        if ns ∈ req.targetNs then 1 else 0) ∧
      ((cfg.trace.countP fun x => entersPivotFs x.2.call) =
        if .mount ∈ req.targetNs then 1 else 0) ∧
      (.mount ∈ req.targetNs → req.pivotFs.RanIn h ())) ∧
    ∀ pid h c k, cfg.procs pid = some ⟨h, .call (I := calls) c k⟩ → req.pivotFs.Inside h c →
      cfg.state.ns.owner .mount (cfg.state.ns.ns pid .mount) = cfg.state.ns.ns pid .user := by
  constructor
  · intro pid h program args env k hproc
    obtain ⟨h₀, h₁, h₂, p₁, p₂, hpair, rfl, hat⟩ :=
      late_cases hr hproc (by simp [Call.kind, lateKinds])
    have hprologue := hpair.prologue
    refine ⟨fun ns => ?_, fun ns => ?_, ?_, fun hm => ?_⟩
    · -- The namespaces: created in this run if requested, else the caller's
      rw [hpair.ns, prologue_ns _ _ hprologue]
      change (ns ∈ _ → _ < ((req.forked s₀.ns root pid).after pid h₂).ns pid ns) ∧
        (ns ∉ _ → ((req.forked s₀.ns root pid).after pid h₂).ns pid ns = _)
      rw [childMain_ns _ hat, execvpe_ns hs₀ ns]
      constructor
      · intro hin
        simp only [hin, if_true]
        split <;> omega
      · intro hout
        simp only [hout, if_false]
    · -- The `unshare`s: some in the prologue, the others in the child
      rw [hpair.count_trace rfl, prologue_count ns hprologue, (childMain_count ns hat).1,
        count_eq_zero (fun _ => unsharesKind_kind) (req.supervise_uses pid) (by decide)
          hpair.rootReaches]
      simp only [mem_firstLevelNs]
      by_cases hu : ns = .user
      · subst hu
        cases req.skipTwoStage <;> simp
      · simp [hu]
    · -- `pivot_fs`: in the child only
      rw [hpair.count_trace rfl, (childMain_count .user hat).2,
        count_eq_zero (fun _ => entersPivotFs_kind) req.prologue_uses (by decide) hprologue,
        count_eq_zero (fun _ => entersPivotFs_kind) (req.supervise_uses pid) (by decide)
          hpair.rootReaches]
      simp
    · exact ((childMain_pivots hat hm).append_right [⟨.fork, .ok .child⟩]).append_right h₀
  · intro pid h c k hproc hinside
    obtain ⟨hx, hy, heq, hne, hat⟩ := hinside
    -- A process inside `pivot_fs` has entered it before
    have henter : ∃ e ∈ h, e.call.kind = .enterPivot := by
      rcases at_sys_bind.1 hat with ⟨rfl, -⟩ | ⟨_, hz, rfl, -⟩
      · exact absurd rfl hne
      · exact ⟨⟨.enter .pivotFs, ()⟩, by simp [heq], rfl⟩
    obtain ⟨e, he, hek⟩ := henter
    rcases process_cases hr hproc with ⟨-, -, hall⟩ | ⟨child, h₀, h₁, h₂, p₁, p₂, hpair, hcase⟩
    · -- No process enters it before the fork
      have := hall e he
      rw [hek] at this
      exact absurd this (by decide)
    have hno : ∀ e ∈ h₀, e.call.kind ≠ .enterPivot := by
      intro e he hek
      have hin : e.call.kind ∈ _ := req.prologue_uses.mem (e := e) hpair.prologue he
      rw [hek] at hin
      exact absurd hin (by decide)
    rcases hcase with ⟨rfl, rfl, -⟩ | ⟨rfl, rfl, -⟩
    · -- the supervisor never sets up a mount tree
      rcases List.mem_append.1 he with he | he
      · exact absurd hek (hno e he)
      rcases List.mem_cons.1 he with rfl | he
      · cases hek
      · have hin : e.call.kind ∈ _ := (req.supervise_uses child).mem (e := e) hpair.rootReaches he
        rw [hek] at hin
        exact absurd hin (by decide)
    · -- It is the child, in the namespaces that it has after the `unshare`s
      obtain ⟨h₃, rfl⟩ := inside_suffix heq hat hne hno
      obtain ⟨hm, hns⟩ := childMain_inside_pivotFs hpair.childReaches hne hat
        (req.forked s₀.ns root pid)
      rw [hpair.ns, prologue_ns _ _ hpair.prologue]
      change ((req.forked s₀.ns root pid).after pid _).owner .mount
          (((req.forked s₀.ns root pid).after pid _).ns pid .mount) =
        ((req.forked s₀.ns root pid).after pid _).ns pid .user
      rcases hns with heq | heq <;> rw [heq] <;> exact forked_owner hs₀ hm

/-- The simple request for three namespaces, run to its workload. -/
theorem wrap_namespaces_simple : ∃ cfg h k,
    linux.Reachable 1 (simple [.user, .mount, .pid]).wrap .fresh cfg ∧
    cfg.procs 2 = some ⟨h, .call (I := calls) (.execvpe "/bin/true" ["/bin/true"] []) k⟩ ∧
    0 < cfg.state.ns.ns 2 .mount ∧ cfg.state.ns.ns 2 .uts = 0 ∧
    (simple [.user, .mount, .pid]).pivotFs.RanIn h () := by
  obtain ⟨cfg, h, k, hr, hproc⟩ := childRest_comes_to
    (c := .execvpe "/bin/true" ["/bin/true"] []) .fresh
    (forks_of_succeeds (simple [.user, .mount, .pid]) succeeding 1 2 ⟨(), by decide⟩ rfl (by decide))
    ⟨(), by decide⟩
    rfl ⟨(), by decide⟩ rfl (fun s h₁ e h₂ heq _ => childRest_allows (by decide) s h₁ e h₂ heq)
    (by decide)
  obtain ⟨hns, -, -, hran⟩ :=
    (wrap_namespaces (World.fresh_initial 1) (linux_of_under hr)).1 2 _ _ _ _ _ hproc
  exact ⟨cfg, h, k, linux_of_under hr, hproc, (hns .mount).1 (by decide), (hns .uts).2 (by decide),
    hran (by decide)⟩

end CreateRequest

end Styrolite
