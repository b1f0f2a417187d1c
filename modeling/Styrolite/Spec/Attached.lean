import Mathlib.Data.List.TakeWhile
import Styrolite.Spec.NamespaceCorrect

/-!
# Attaching process and child

`AttachRequest.wrap` forks once, after it has joined the namespaces and written
its score. Every reachable configuration is therefore the attaching process alone
or an `AttachRequest.Pair`, which leaves the namespaces as the fork made them.
-/

namespace Styrolite

open Prog Kernel

/-- Linux, where the process that the children file of the request's process names is
    `target`. -/
def attaching (target : Int) : Kernel calls Int World :=
  linux.restrict fun _ _ _ c _ => ∀ pid flags, c = .setns pid flags → pid = target

/-! ## The children file -/

/-- A decimal text of the number. -/
private theorem exists_digits (n : Nat) : ∃ cs : List Char, cs ≠ [] ∧ (∀ c ∈ cs, c.isDigit = true) ∧
    cs.foldl (fun n c => 10 * n + (c.toNat - '0'.toNat)) 0 = n := by
  -- By the number: the digits of its tenth, and then its last one
  induction n using Nat.strongRecOn with
  | ind n ih =>
    have hdigit : ∀ d < 10, (Nat.digitChar d).isDigit = true ∧
        (Nat.digitChar d).toNat - '0'.toNat = d := by decide
    by_cases hn : n < 10
    · obtain ⟨h₁, h₂⟩ := hdigit n hn
      exact ⟨[Nat.digitChar n], by simp, by simpa using h₁, by simpa using h₂⟩
    · obtain ⟨cs, -, hcs, hfold⟩ := ih (n / 10) (by omega)
      obtain ⟨h₁, h₂⟩ := hdigit (n % 10) (Nat.mod_lt n (by decide))
      refine ⟨cs ++ [Nat.digitChar (n % 10)], by simp, fun c hc => ?_, ?_⟩
      · rcases List.mem_append.1 hc with hc | hc
        · exact hcs c hc
        · rw [List.mem_singleton.1 hc]
          exact h₁
      · rw [List.foldl_append, hfold]
        simp only [List.foldl_cons, List.foldl_nil, h₂]
        omega

/-- The children file of a process may name any process first. -/
theorem exists_childSet {n : Nat} (hn : n ≤ 2147483647) :
    ∃ text, parseI32 (firstField text) = some (n : Int) := by
  obtain ⟨cs, hne, hcs, hfold⟩ := exists_digits n
  refine ⟨String.ofList cs, ?_⟩
  -- No digit is a space, so the first field is all of it
  have hfield : firstField (String.ofList cs) = String.ofList cs := by
    rw [firstField, String.toList_ofList, List.takeWhile_eq_self_iff.2 fun c hc => ?_]
    have := hcs c hc
    by_contra hspace
    simp only [ne_eq, decide_not, Bool.not_eq_true', decide_eq_false_iff_not, not_not] at hspace
    rw [hspace] at this
    exact absurd this (by decide)
  have hany : cs.any (fun c => !c.isDigit) = false := by
    simpa using hcs
  rw [hfield, parseI32, String.toList_ofList]
  dsimp only
  split
  · -- A digit is no sign
    exact absurd (hcs '+' List.mem_cons_self) (by decide)
  · exact absurd (hcs '-' List.mem_cons_self) (by decide)
  · have hfold' : cs.foldl (fun n c => 10 * n + (c.toNat - 48)) 0 = n := hfold
    simp [hne, hany, hfold']
    omega

namespace AttachRequest

variable {req : AttachRequest} {root child target : Int} {s₀ : World}
  {cfg : Config calls Int World Err Unit} {h : List Event} {c : Call}

/-! ## The prologue -/

theorem setns_runs {nss : List Namespace} (hr : (setns target nss).Runs h (.ok ())) :
    h = [⟨.pidfdOpen target, .ok ()⟩, ⟨.setns target (Namespace.cloneFlags nss), .ok ()⟩] := by
  simp only [setns, runs_sys_bind, runs_check_bind_ok, runs_check_ok] at hr
  obtain ⟨_, _, rfl, ⟨⟩, rfl, _, _, rfl, rfl, rfl⟩ := hr
  rfl

/-- The history `h` has joined the namespaces of `target`, and has changed nothing else. -/
def Joined (req : AttachRequest) (target : Int) (h : List Event) : Prop :=
  (∃ a, (⟨.setns target (Namespace.cloneFlags req.targetNs), a⟩ : Event) ∈ h) ∧
    ∀ (s : NsState) (p : Int),
      s.after p h = s.setns p target (Namespace.cloneFlags req.targetNs)

private theorem joined {h₁ h₂ h₃ h₄ : List Event} {x y : Except Err Unit}
    (hfind : (firstChildPidOf req.pid).Runs h₁ (.ok target))
    (hcg : (attempt req.attachCgroup).Runs h₂ (.ok x))
    (hjoin : (setns target req.targetNs).Runs h₃ (.ok ()))
    (hlim : (attempt req.exec.setProcessLimits).Runs h₄ (.ok y)) :
    req.Joined target (h₁ ++ (h₂ ++ (h₃ ++ h₄))) := by
  obtain rfl := setns_runs hjoin
  refine ⟨⟨.ok (), by simp⟩, fun s p => ?_⟩
  simp only [NsState.after_append,
    s.after_of_uses p (firstChildPidOf_uses _) (by decide) hfind,
    NsState.after_of_uses _ p (.attempt req.attachCgroup_uses) (by decide) hcg,
    NsState.after_of_uses _ p (.attempt req.exec.setProcessLimits_uses) (by decide) hlim]
  rfl

/-- The score is written after the namespaces are joined. -/
theorem prologue_at_oom {text : String} (hat : req.prologue.At h (.procWrite .oomScoreAdj text)) :
    ∃ target, req.Joined target h := by
  have hk : (Call.procWrite .oomScoreAdj text).kind ∈ [.oom] := by simp [Call.kind]
  -- Every part before the score is passed, since none of them writes it
  obtain ⟨target, h₁, _, hfind, hat₁, rfl⟩ :=
    (firstChildPidOf_uses _).at_past (by decide) hk hat
  obtain ⟨x, h₂, _, hcg, hat₂, rfl⟩ :=
    Uses.at_past (.attempt req.attachCgroup_uses) (by decide) hk hat₁
  obtain ⟨⟨⟩, h₃, _, hjoin, hat₃, rfl⟩ := (setns_uses _ _).at_past (by decide) hk hat₂
  obtain ⟨y, h₄, h₅, hlim, hat₄, rfl⟩ :=
    Uses.at_past (.attempt req.exec.setProcessLimits_uses) (by decide) hk hat₃
  rcases at_bind.1 hat₄ with hat₅ | ⟨-, _, h₆, -, hat₅, -⟩
  · obtain ⟨score, -, hat₅⟩ := at_whenSome.1 hat₅
    simp only [at_sys_bind, not_at_check, and_false, exists_false, or_false] at hat₅
    obtain ⟨rfl, -⟩ := hat₅
    exact ⟨target, by simpa using joined hfind hcg hjoin hlim⟩
  · exact absurd hat₅ ((orExit_uses setupParentSignalHandlers_uses).not_at (by decide) hk)

/-- A finished prologue has joined the namespaces, and then written the score. -/
theorem prologue_runs (hr : req.prologue.Runs h (.ok ())) :
    ∃ target h₁ h₂ h₃, h = h₁ ++ (h₂ ++ h₃) ∧ req.Joined target h₁ ∧
      (applyOomScore req.exec.oomScoreAdj).Runs h₂ (.ok ()) ∧
      ∀ (s : NsState) (p : Int), s.after p h₃ = s := by
  obtain ⟨target, h₁, _, hfind, hr₁, rfl⟩ := runs_bind_ok.1 hr
  obtain ⟨x, h₂, _, hcg, hr₂, rfl⟩ := runs_bind_ok.1 hr₁
  obtain ⟨⟨⟩, h₃, _, hjoin, hr₃, rfl⟩ := runs_bind_ok.1 hr₂
  obtain ⟨y, h₄, _, hlim, hr₄, rfl⟩ := runs_bind_ok.1 hr₃
  obtain ⟨⟨⟩, h₅, h₆, hoom, hsig, rfl⟩ := runs_bind_ok.1 hr₄
  refine ⟨target, h₁ ++ (h₂ ++ (h₃ ++ h₄)), h₅, h₆, by simp, joined hfind hcg hjoin hlim, hoom,
    fun s p => ?_⟩
  exact s.after_of_uses p (orExit_uses setupParentSignalHandlers_uses) (by decide) hsig

/-! ## A run of the prologue -/

/-- The limits are set or not; either way the run goes on. -/
private theorem exists_limits (exec : ExecutableSpec) :
    ∃ h x, (attempt exec.setProcessLimits).Runs h (.ok x) := by
  -- The attempt ends without limits, or at the first one, which is refused
  cases hl : exec.processLimits with
  | none =>
    have hrun : exec.setProcessLimits.Runs [] (.ok ()) := by
      unfold ExecutableSpec.setProcessLimits
      rw [hl]
      exact .refl _
    exact ⟨_, .ok (), runs_attempt_ok.2 (.inl ⟨(), rfl, hrun⟩)⟩
  | some l =>
    have hrun : exec.setProcessLimits.Runs
        [⟨.setrlimit .as (l.addressSpaceSize.getD RLIM_INFINITY)
          (l.addressSpaceSize.getD RLIM_INFINITY), .error Errno.EPERM⟩]
        (.err (Err.context ("failed to set resource limit " ++ toString RLimit.as.code)
          (.os Errno.EPERM))) := by
      unfold ExecutableSpec.setProcessLimits
      rw [hl]
      exact .call (.refl _)
    exact ⟨_, .error _, runs_attempt_ok.2 (.inr ⟨_, rfl, hrun⟩)⟩

/-- A control group that is not there is not joined. -/
private theorem exists_cgroup (req : AttachRequest) :
    ∃ h x, (attempt req.attachCgroup).Runs h (.ok x) := by
  have hrun : req.attachCgroup.Runs
      [⟨.getpid, (1 : Nat)⟩, ⟨.getpid, (1 : Nat)⟩, ⟨.fsExists _, false⟩] (.ok ()) :=
    .call (.call (.call (.refl _)))
  exact ⟨_, .ok (), runs_attempt_ok.2 (.inl ⟨(), rfl, hrun⟩)⟩

/-- A part of a run that makes no call on namespaces, eventfds or scores. -/
private theorem free_of_uses {α : Type} {p q : Sys α} {ks : List Call.Kind} {n : Int}
    (hp : p.Uses (Call.within ks)) (hks : ∀ k ∈ ks, k ∉ [.efd, .fork, .oom, .ns])
    (hr : p.Reaches h q) :
    ∀ e ∈ h, e.call.free = true ∧ ∀ pid flags, e.call = .setns pid flags → pid = n := by
  intro e he
  have hin : e.call.kind ∈ ks := hp.mem (e := e) hr he
  refine ⟨Call.free_of_kind fun hbad => hks _ hin ?_, fun pid flags heq => ?_⟩
  · exact (by decide : ∀ k ∈ [Call.Kind.efd, .fork, .oom], k ∈ [.efd, .fork, .oom, .ns]) _ hbad
  · rw [heq] at hin
    exact absurd (by simp [Call.kind]) (hks _ hin)

/-- There is a run up to the write of the score, in which the namespaces of any process that
    has a valid number are joined. -/
theorem exists_prologue_at_oom (req : AttachRequest) {n : Nat} (hn : n ≤ 2147483647) {score : Int}
    (hscore : req.exec.oomScoreAdj = some score) :
    ∃ h, req.prologue.At h (.procWrite .oomScoreAdj (toString score)) ∧
      ∀ e ∈ h, e.call.free = true ∧ ∀ pid flags, e.call = .setns pid flags → pid = n := by
  obtain ⟨text, htext⟩ := exists_childSet hn
  -- The child is found in `/proc`, and its namespaces are joined
  have hfind : (firstChildPidOf req.pid).Runs [⟨.fsReadToString ("/proc/" ++ toString req.pid ++
      "/task/" ++ toString req.pid ++ "/children"), .ok text⟩] (.ok (n : Int)) := by
    refine runs_sys_bind.2 ⟨_, [], rfl, ?_⟩
    simp [htext]
  obtain ⟨hc, x, hcg⟩ := exists_cgroup req
  have hjoin : (setns n req.targetNs).Runs [⟨.pidfdOpen n, .ok ()⟩,
      ⟨.setns n (Namespace.cloneFlags req.targetNs), .ok ()⟩] (.ok ()) := .call (.call (.refl _))
  obtain ⟨hl, y, hlim⟩ := exists_limits req.exec
  -- The score is written right after the limits
  have hwrite : (applyOomScore req.exec.oomScoreAdj >>= fun _ =>
      orExit setupParentSignalHandlers).At [] (.procWrite .oomScoreAdj (toString score)) := by
    rw [hscore]
    exact ⟨_, .refl _⟩
  refine ⟨_, at_bind.2 (.inr ⟨_, _, _, hfind, at_bind.2 (.inr ⟨_, _, _, hcg, at_bind.2
    (.inr ⟨_, _, _, hjoin, at_bind.2 (.inr ⟨_, _, _, hlim, hwrite, rfl⟩), rfl⟩), rfl⟩), rfl⟩), ?_⟩
  -- Each event is one of the four parts
  intro e he
  simp only [List.mem_append, List.mem_cons, List.not_mem_nil, or_false] at he
  rcases he with rfl | he | (rfl | rfl) | he
  · exact ⟨rfl, fun pid flags heq => by cases heq⟩
  · exact free_of_uses (.attempt req.attachCgroup_uses) (by decide) hcg e he
  · exact ⟨rfl, fun pid flags heq => by cases heq⟩
  · exact ⟨rfl, fun pid flags heq => by cases heq; rfl⟩
  · exact free_of_uses (.attempt req.exec.setProcessLimits_uses) (by decide) hlim e he

/-! ## The two processes -/

theorem wrap_eq (req : AttachRequest) :
    req.wrap = req.prologue >>= fun _ => .call (I := calls) .fork req.afterFork := rfl

/-- The kinds of calls either process makes after the fork. -/
def pairKinds : List Call.Kind := [.env, .enterLate, .file, .signal, .wait, .cred, .confine, .exec]

theorem afterFork_uses (req : AttachRequest) (r : Except Errno ForkResult) :
    (req.afterFork r).Uses (Call.within pairKinds) := by
  match r with
  | .error _ => exact .done _
  | .ok (.parent child) => exact (supervise_uses child).widen (by decide)
  | .ok .child => exact req.childMain_uses.widen (by decide)

/-- Attaching process and child after the fork. Before it the process made the calls of `h₀`;
    since then it has made those of `h₁` and the child those of `h₂`, and `p₁` and `p₂` are
    left to do. -/
structure Pair (req : AttachRequest) (target root : Int) (s₀ : World)
    (cfg : Config calls Int World Err Unit) (child : Int) (h₀ h₁ h₂ : List Event)
    (p₁ p₂ : Sys Unit) : Prop where
  ne : child ≠ root
  prologue : req.prologue.Runs h₀ (.ok ())
  lawful : (attaching target).Lawful s₀ root h₀
  rootProc : cfg.procs root = some ⟨h₀ ++ ⟨.fork, .ok (.parent child)⟩ :: h₁, p₁⟩
  childProc : cfg.procs child = some ⟨h₀ ++ ⟨.fork, .ok .child⟩ :: h₂, p₂⟩
  others : ∀ r, r ≠ root → r ≠ child → cfg.procs r = none
  rootReaches : (supervise child).Reaches h₁ p₁
  childReaches : req.childMain.Reaches h₂ p₂
  ns : cfg.state.ns = (s₀.ns.after root h₀).fork root child

theorem Pair.proc_cases (hp : req.Pair target root s₀ cfg child h₀ h₁ h₂ p₁ p₂) {pid : Int}
    {P : Process calls Err Unit} (hP : cfg.procs pid = some P) :
    (pid = root ∧ P = ⟨h₀ ++ ⟨.fork, .ok (.parent child)⟩ :: h₁, p₁⟩) ∨
      (pid ≠ root ∧ pid = child ∧ P = ⟨h₀ ++ ⟨.fork, .ok .child⟩ :: h₂, p₂⟩) :=
  Config.proc_cases hp.rootProc hp.childProc hp.others hP

private theorem attach_no_ns {r : Except Errno ForkResult} (hat : (req.afterFork r).At h c)
    (s : World) (p : Int) (a : c.Answer) : (s.next p c a).ns = s.ns := by
  have hk : c.kind ∈ pairKinds := req.afterFork_uses r h c hat
  refine s.ns.next_of_kind p a ?_
  revert hk
  cases c.kind <;> decide

/-- Every reachable configuration of an attaching `wrap`. -/
theorem wrap_cases (hr : (attaching target).Reachable root req.wrap s₀ cfg) :
    (∃ h q, Solo (attaching target) root s₀ req.wrap cfg h q) ∨
      ∃ child h₀ h₁ h₂ p₁ p₂, req.Pair target root s₀ cfg child h₀ h₁ h₂ p₁ p₂ := by
  rw [wrap_eq] at hr ⊢
  have hpre : req.prologue.Uses (attaching target).NoSpawn :=
    noSpawn_of_uses req.prologue_uses (by decide)
  -- The pair's invariant: the namespaces are those of the fork, which neither half changes
  have hcases := reachable_cases (K := attaching target)
    (fun (f : ForkPoint calls Int Unit .fork) s _ _ =>
      s.ns = (s₀.ns.after root f.hist).fork root f.child)
    hpre (fun _ a => noSpawn_of_uses (req.afterFork_uses a) (by decide)) (fun f hf => ?_)
    (fun _ s _ _ _ a _ hJ hat _ => (attach_no_ns hat s _ a).trans hJ)
    (fun _ s _ _ _ a _ hJ hat _ => (attach_no_ns hat s _ a).trans hJ) hr
  · rcases hcases with hsolo | ⟨f, h₁, h₂, p₁, p₂, hf, hduo, hJ⟩
    · exact .inl hsolo
    · obtain ⟨ha, hb⟩ := spawn_some hf.spawn
      have hroot := hduo.rootProc
      have hchild := hduo.childProc
      have hrr := hduo.rootReaches
      have hcr := hduo.childReaches
      -- The histories are those of the fork, whose answers are these
      simp only [ForkPoint.rootHist, ForkPoint.childHist, ha, hb] at hroot hchild hrr hcr
      exact .inr ⟨f.child, f.hist, h₁, h₂, p₁, p₂, hf.ne, hf.runs, hf.lawful, hroot, hchild,
        hduo.others, hrr, hcr, hJ⟩
  · -- At the fork the namespaces are those of the prologue
    obtain ⟨ha, -⟩ := spawn_some hf.spawn
    have hafter : ((attaching target).after s₀ root f.hist).ns = s₀.ns.after root f.hist :=
      linux_after_ns s₀ root f.hist
    change ((attaching target).after s₀ root f.hist).ns.next root .fork f.answer = _
    rw [hafter, ha]
    rfl

/-! ## Runs under given answers -/

/-- Under `ω` the attaching process comes to its fork, and its child then makes the call `c`,
    after calls that may be answered at any time. -/
def comesTo (ω : calls.Answers) (req : AttachRequest) (child : Int) (c : Call) : Bool :=
  let prologue := req.prologue.eval ω []
  let rest := req.childMain.eval ω (prologue.1 ++ [⟨.fork, .ok .child⟩])
  prologue.2 = .ok () ∧ prologue.1.all (·.call.free) ∧
    ω prologue.1 .fork = Except.ok (ForkResult.parent child) ∧
    rest.1.all (·.call.free) ∧ c ∈ rest.1.map Interface.Event.call

theorem comes_to_of_comesTo (ω : calls.Answers) (req : AttachRequest) (root child : Int)
    (s₀ : World) (c : Call) (hne : child ≠ root) (hc : comesTo ω req child c = true) :
    ∃ cfg h k, (linux.under ω).Reachable root req.wrap s₀ cfg ∧
      cfg.procs child = some ⟨h, .call (I := calls) c k⟩ := by
  obtain ⟨hpro, hfree₀, hfork, hfree, hmem⟩ := of_decide_eq_true hc
  rw [List.all_eq_true] at hfree₀ hfree
  have hrun := req.prologue.eval_runs ω []
  rw [hpro] at hrun
  have hfol := eval_follows ω req.prologue []
  generalize (req.prologue.eval ω []).1 = h₀ at *
  -- up to the fork
  have hl : (linux.under ω).Lawful s₀ root h₀ := fun h₁ e h₂ heq =>
    ⟨World.allows_of_free _ _ _ (hfree₀ e (by simp [heq])), hfol h₁ e h₂ heq⟩
  obtain ⟨cfg₁, hforked, -, hproc₁⟩ := exists_forked (fun _ _ => rfl) hrun hl
    ⟨trivial, hfork.symm⟩ (fun e he => Call.ne_fork_of_free (hfree₀ e he)) hne req.afterFork
  -- the child
  have hrun' := req.childMain.eval_runs ω (h₀ ++ [⟨.fork, .ok .child⟩])
  have hfol' := eval_follows ω req.childMain (h₀ ++ [⟨.fork, .ok .child⟩])
  obtain ⟨e, he, rfl⟩ := List.mem_map.1 hmem
  obtain ⟨h₃, h₄, heq⟩ := List.append_of_mem he
  rw [heq] at hrun' hfol' hfree
  obtain ⟨k, hat⟩ := Reaches.at_of_split hrun'
  have hchild := (linux.under ω).steps_of_reaches hproc₁ hat
    (fun h₁ e' h₂ heq' => ⟨World.allows_of_free _ _ _ (hfree e' (by simp [heq'])),
      (follows_append.1 hfol').1 h₁ e' h₂ heq'⟩)
    (fun e' he' => spawn_none _ (Call.ne_fork_of_free (hfree e' (by simp [he']))))
  exact ⟨_, _, k, hforked.trans hchild, Function.update_self _ _ _⟩

end AttachRequest

end Styrolite
