import Styrolite.Spec.ExitCorrect
import Styrolite.Spec.ValidateCorrect

/-!
# What may fail

Before the fork only a few calls have to succeed for a launch: those that enter the
namespaces, write the score of an `AttachRequest`, set the handlers and make the
eventfds. The control group, the boot time, the hostname and the limits are best
effort. After the fork everything has to succeed but the change of the ids. Whatever
else is refused, the workload is launched.

## Key results

- `Request.wrap_tolerates`: what is refused without stopping a launch
-/

namespace Styrolite

open Prog LocalRules

variable {α : Type} {h : List Event} {out : Outcome Err Unit}

/-! ## Before the fork -/

/-- The kinds of calls that have to succeed before the fork. -/
def essentialKinds : List Call.Kind := [.ns, .oom, .signal, .eventfd]

/-- Nothing is refused that has to succeed before the fork. -/
def BorneBefore (e : Event) : Prop := e.call.within essentialKinds → Unrefused e

/-- A program whose calls are all essential is borne to its end. -/
theorem borneBefore_sure {p : Sys α} {ks : List Call.Kind} (hp : Safe p)
    (huses : p.Uses (Call.within ks)) (hks : ∀ k ∈ ks, k ∈ essentialKinds) :
    Sure BorneBefore p fun _ => True :=
  Sure.of_uses hp huses fun _ hc he => he (hks _ hc)

/-- Two programs that are borne, one after the other. -/
theorem bind_sure {S : Event → Prop} {β : Type} {p : Sys α} {f : α → Sys β}
    (hp : Sure S p fun _ => True) (hf : ∀ a, Sure S (f a) fun _ => True) :
    Sure S (p >>= f) fun _ => True := Sure.bind hp fun a _ => hf a

/-- The two eventfds are made, unless the kernel refuses one. -/
theorem eventfds_sure : Safe (do
    check (← sys (.eventfd .parent 0 EFD_SEMAPHORE))
    check (← sys (.eventfd .child 0 EFD_SEMAPHORE))) :=
  sys_bind_sure fun _ ha => Safe.bind (check_sure ha) fun _ =>
    sys_bind_sure fun _ ha => check_sure ha

/-- The supervisor comes through its prologue. -/
theorem CreateRequest.prologue_tolerates (req : CreateRequest) :
    Sure BorneBefore req.prologue fun _ => True := by
  refine bind_sure (Sure.attempt_returns req.prepareCgroup_returns) fun _ => ?_
  refine bind_sure (borneBefore_sure (unshare_sure _) (unshare_uses _) (by decide)) fun _ => ?_
  refine bind_sure (Sure.attempt_returns updateBoottime_returns) fun _ => ?_
  refine bind_sure (Sure.attempt_returns req.updateHostname_returns) fun _ => ?_
  refine bind_sure (Sure.attempt_returns req.exec.setProcessLimits_returns) fun _ => ?_
  refine bind_sure (borneBefore_sure setupParentSignalHandlers_sure
    (orExit_uses setupParentSignalHandlers_uses) (by decide)) fun _ => ?_
  have huses : Uses (Call.within [.eventfd]) (do
      check (← sys (.eventfd .parent 0 EFD_SEMAPHORE))
      check (← sys (.eventfd .child 0 EFD_SEMAPHORE)) : Sys Unit) :=
    .bind (uses_sys _ rfl) fun _ => .bind (uses_check _) fun _ => uses_checked _ rfl
  exact borneBefore_sure eventfds_sure huses (by decide)

/-- If there is a process to attach to. -/
theorem AttachRequest.join_tolerates (req : AttachRequest) (targetPid : Int) :
    Sure BorneBefore (req.join targetPid) fun _ => True := by
  have hsetns : Safe (setns targetPid req.targetNs) := by
    unfold setns
    exact sys_bind_sure fun _ ha => Safe.bind (check_sure ha) fun _ =>
      sys_bind_sure fun _ ha => check_sure ha
  refine bind_sure (Sure.attempt_returns req.attachCgroup_returns) fun _ => ?_
  refine bind_sure (borneBefore_sure hsetns (setns_uses _ _) (by decide)) fun _ => ?_
  refine bind_sure (Sure.attempt_returns req.exec.setProcessLimits_returns) fun _ => ?_
  refine bind_sure (borneBefore_sure (applyOomScore_sure _) (applyOomScore_uses _) (by decide))
    fun _ => ?_
  exact borneBefore_sure setupParentSignalHandlers_sure
    (orExit_uses setupParentSignalHandlers_uses) (by decide)

/-- What joining a container calls. -/
theorem AttachRequest.join_uses (req : AttachRequest) (targetPid : Int) :
    (req.join targetPid).Uses (Call.within [.env, .file, .ns, .rlimit, .oom, .signal]) :=
  .bind (.attempt (req.attachCgroup_uses.widen (by decide))) fun _ =>
    .bind ((setns_uses _ _).widen (by decide)) fun _ =>
    .bind (.attempt (req.exec.setProcessLimits_uses.widen (by decide))) fun _ =>
    .bind ((applyOomScore_uses _).widen (by decide)) fun _ =>
    orExit_uses (setupParentSignalHandlers_uses.widen (by decide))

/-! ## After it -/

/-- The calls of `apply_gid_uid` that change an id. -/
def Call.switchesId : Call → Bool
  | .setuid _ | .setgid _ | .setgroups _ => true
  | _ => false

/-- Nothing is refused after the fork but a change of the ids. -/
def BorneAfter (e : Event) : Prop := e.call.switchesId = false → Unrefused e

/-- A call of another kind switches no id. -/
theorem switchesId_of_kind {c : Call} (hc : c.kind ≠ .cred) : c.switchesId = false := by
  unfold Call.switchesId
  split
  · exact absurd rfl hc
  · exact absurd rfl hc
  · exact absurd rfl hc
  · rfl

/-- After the fork a refusal counts only if it is of an id. -/
theorem borneAfter_sure {p : Sys α} {A : α → Prop} {ks : List Call.Kind} (hp : Sure Unrefused p A)
    (huses : p.Uses (Call.within ks)) (hks : .cred ∉ ks) : Sure BorneAfter p A :=
  Sure.of_uses hp huses fun _ hc he => he (switchesId_of_kind fun heq => hks (heq ▸ hc))

/-- A refused change of the ids is logged only. -/
theorem applyGidUid_always (gid uid : Option UInt32) (gids : Option (List UInt32)) :
    Sure (fun _ => True) (applyGidUid gid uid gids) fun _ => True := by
  have hcall : ∀ {c : Call} {k : c.Answer → Sys Unit},
      (∀ a, Sure (fun _ => True) (k a) fun _ => True) →
      Sure (fun _ => True) (Bind.bind (α := no_index c.Answer) (sys c) k) fun _ => True :=
    fun hk => Sure.call (I := calls) fun a _ => hk a
  unfold applyGidUid applyGid applyUid
  refine bind_sure (.whenSome (fun _ _ => hcall fun _ => ?_) fun _ => trivial) fun _ =>
    bind_sure (.whenSome (fun _ _ => hcall fun _ => .pure trivial) fun _ => trivial) fun _ =>
    .whenSome (fun _ _ => hcall fun _ => ?_) fun _ => trivial
  all_goals
    split
    · exact hcall fun _ => .pure trivial
    · exact .pure trivial

/-- Applying capabilities switches no id. -/
theorem applyCapabilities_keepsId (capabilities : Option Capabilities) :
    (applyCapabilities capabilities).Uses fun (c : Call) => c.switchesId = false := by
  have hsys : ∀ {c : Call}, c.switchesId = false → Prog.Uses (α := no_index c.Answer)
      (fun (c : Call) => c.switchesId = false) (sys c) := fun hc => Uses.sys (I := calls) hc
  have hnames : ∀ names, (Capabilities.namesAsBits names).Uses fun (c : Call) =>
      c.switchesId = false :=
    fun names => (namesAsBits_uses names).mono fun _ hc => switchesId_of_kind fun heq => by
      rw [Call.within, heq] at hc
      exact absurd hc (by decide)
  -- Each of its calls is about capabilities
  refine .whenSome fun caps _ => .bind ?_ fun _ => .bind (hnames _) fun _ =>
    .bind (hnames _) fun _ => .bind (hnames _) fun _ =>
    .bind (.forM fun _ _ => .when fun _ => .bind (hsys rfl) fun _ => .mapErr (.check _ _)) fun _ =>
    .bind (.bind (hsys rfl) fun _ => .bind (hsys rfl) fun _ => .mapErr (.check _ _)) fun _ =>
    .bind (.forM fun _ _ => .bind (hsys rfl) fun _ => .mapErr (.check _ _)) fun _ =>
    .forM fun _ _ => .bind (hsys rfl) fun _ => .mapErr (.check _ _)
  exact .bind (hsys rfl) fun _ => .bind (hsys rfl) fun _ => .bind (.mapErr (.check _ _)) fun _ =>
    .pure _

/-- The preparation of the workload comes to its end. -/
theorem preexecPrep_tolerates {exec : ExecutableSpec} {capabilities : Option Capabilities}
    (hcaps : ∀ caps, capabilities = some caps → caps.AllKnown) :
    Sure BorneAfter (preexecPrep exec capabilities) fun _ => True := by
  have hkeep : Safe setKeepCaps := sys_bind_sure fun _ ha => .mapErr (check_sure ha)
  have hkeepId : setKeepCaps.Uses fun (c : Call) => c.switchesId = false :=
    .bind (Uses.sys (I := calls) rfl) fun _ => .mapErr (.check _ _)
  have happly : Safe (applyCapabilities capabilities) :=
    .whenSome (fun caps hsome => Capabilities.apply_sure (hcaps caps hsome)) fun _ => trivial
  refine bind_sure (Sure.call (I := calls) fun _ _ => .pure trivial) fun _ => ?_
  refine bind_sure (Sure.of_uses hkeep hkeepId fun _ hc he => he hc) fun _ => ?_
  refine bind_sure (Sure.of_uses (applyGidUid_always _ _ _) (applyGidUid_uses _ _ _)
    fun _ _ _ => trivial) fun _ => ?_
  exact Sure.of_uses happly (applyCapabilities_keepsId _) fun _ hc he => he hc

/-- In a part that changes no id, nothing is refused. -/
theorem unrefused_of_borneAfter {p q : Sys α} {ks : List Call.Kind}
    (huses : p.Uses (Call.within ks)) (hks : .cred ∉ ks) (hr : p.Reaches h q) (hh : ∀ e ∈ h, BorneAfter e) :
    ∀ e ∈ h, Unrefused e := fun e he =>
  hh e he (switchesId_of_kind fun heq => hks (heq ▸ huses.mem (e := e) hr he))

/-- A workload that can be started is started. -/
theorem workload_tolerates {exec : ExecutableSpec} {capabilities : Option Capabilities}
    (hexec : exec.Startable) (hcaps : ∀ caps, capabilities = some caps → caps.AllKnown)
    (hh : ∀ e ∈ h, BorneAfter e)
    (hr : (preexecPrep exec capabilities >>= fun _ => exec.execute).Runs h out) :
    ∃ program args env, (⟨.execvpe program args env, .ok ()⟩ : Event) ∈ h := by
  obtain ⟨_, h₁, h₂, rfl, -, -, hr₁⟩ := (preexecPrep_tolerates hcaps).runs_bind hh hr
  have hh₂ := unrefused_of_borneAfter exec.execute_uses (by decide) hr₁
    fun e he => hh e (List.mem_append_right h₁ he)
  obtain ⟨program, args, env, hmem⟩ := ExecutableSpec.execute_comes hexec hh₂ hr₁
  exact ⟨program, args, env, List.mem_append_right h₁ hmem⟩

namespace CreateRequest

variable {req : CreateRequest}

/-- The child up to the end of its mount work and the console. -/
def childSetup (req : CreateRequest) : Sys Unit := do
  req.childSignal
  let _ ← check (← sys (.efdRead .child))
  Prog.when req.skipTwoStage req.pivotIfMount
  applyOomScore req.exec.oomScoreAdj
  setupConsole req.exec.uid

/-- The child is its set-up, then the preparation and the workload. -/
theorem childMain_eq (req : CreateRequest) : req.childMain = req.childSetup >>= fun _ =>
    preexecPrep req.exec req.capabilities >>= fun _ => req.exec.execute := by
  simp only [childSetup, bind_assoc]
  rfl

/-- The child comes through its set-up. -/
theorem childSetup_sure (hroot : .mount ∈ req.targetNs → req.Rootable ∧ req.PathsUsable) :
    Sure BorneAfter req.childSetup fun _ => True := by
  have huses : req.childSetup.Uses (Call.within
      [.enterPivot, .enterLate, .env, .file, .mount, .pivot, .ns, .signal, .efd, .oom, .chown]) :=
    .bind (req.childSignal_uses.widen (by decide)) fun _ => .bind (uses_sys _ rfl) fun r =>
      .bind (uses_check r) fun _ =>
      .bind (.when fun _ => req.pivotIfMount_uses.widen (by decide)) fun _ =>
      .bind ((applyOomScore_uses _).widen (by decide)) fun _ =>
      (setupConsole_uses _).widen (by decide)
  refine borneAfter_sure (Safe.bind (childSignal_sure hroot) fun _ => ?_) huses (by decide)
  refine sys_bind_sure fun _ ha => Safe.bind (check_sure ha) fun _ => ?_
  refine Safe.bind (.when (fun _ => pivotIfMount_sure hroot) fun _ => trivial) fun _ => ?_
  exact Safe.bind (applyOomScore_sure _) fun _ => setupConsole_sure _

/-- After the fork of `wrap` one of the two processes has launched the workload. -/
theorem afterFork_tolerates (hreq : (Request.create req).Launchable) {a : Except Errno ForkResult}
    (ha : Unrefused ⟨.fork, a⟩) (hh : ∀ e ∈ h, BorneAfter e) (hr : (req.afterFork a).Runs h out) :
    Request.Launched (⟨.fork, a⟩ :: h) out := by
  refine Request.launched_of_halves ha (fun child hr => ?_) (fun hr => ?_) hr
  · exact supervise_exits
      (unrefused_of_borneAfter (req.supervise_uses child) (by decide) hr hh) hr
  · -- Up to the preparation only a refused id is borne, and there is none
    rw [afterFork_child, childMain_eq] at hr
    obtain ⟨_, h₁, h₂, rfl, -, -, hr₁⟩ :=
      (childSetup_sure (hreq.root req rfl)).runs_bind hh hr
    obtain ⟨program, args, env, hmem⟩ := workload_tolerates hreq.startable hreq.capabilities
      (fun e he => hh e (List.mem_append_right h₁ he)) hr₁
    exact ⟨program, args, env, List.mem_append_right h₁ hmem⟩

end CreateRequest

/-- After the fork of an attach one of the two processes has launched the workload. -/
theorem AttachRequest.afterFork_tolerates {req : AttachRequest}
    (hreq : (Request.attach req).Launchable) {a : Except Errno ForkResult}
    (ha : Unrefused ⟨.fork, a⟩) (hh : ∀ e ∈ h, BorneAfter e) (hr : (req.afterFork a).Runs h out) :
    Request.Launched (⟨.fork, a⟩ :: h) out := by
  refine Request.launched_of_halves ha (fun child hr => ?_) (fun hr => ?_) hr
  · exact supervise_exits
      (unrefused_of_borneAfter (supervise_uses child) (by decide) hr hh) hr
  · -- As above, except that there is nothing to set up
    obtain ⟨_, h₁, h₂, rfl, -, -, hr₁⟩ := (borneAfter_sure resetChildSignalHandlers_sure
      (orExit_uses resetChildSignalHandlers_uses) (by decide)).runs_bind hh hr
    obtain ⟨program, args, env, hmem⟩ := workload_tolerates hreq.startable hreq.capabilities
      (fun e he => hh e (List.mem_append_right h₁ he)) hr₁
    exact ⟨program, args, env, List.mem_append_right h₁ hmem⟩

/-! ## Main theorem -/

/-- The events before the fork, and those from it on. -/
def beforeFork (h : List Event) : List Event := h.takeWhile fun e => e.call.kind ≠ .fork

/-- The history from the fork on. -/
def fromFork (h : List Event) : List Event := h.dropWhile fun e => e.call.kind ≠ .fork

/-- What is called before the first fork is before the fork. -/
theorem mem_beforeFork {h₁ h₂ : List Event} (hno : ∀ e ∈ h₁, e.call.kind ≠ .fork) {e : Event}
    (he : e ∈ h₁) : e ∈ beforeFork (h₁ ++ h₂) := by
  rw [beforeFork, List.takeWhile_append_of_pos fun e he => decide_eq_true (hno e he)]
  exact List.mem_append_left _ he

/-- From the fork on, when there was none before it. -/
theorem fromFork_eq {h₁ h₂ : List Event} {a : Except Errno ForkResult}
    (hno : ∀ e ∈ h₁, e.call.kind ≠ .fork) :
    fromFork (h₁ ++ ⟨.fork, a⟩ :: h₂) = ⟨.fork, a⟩ :: h₂ := by
  rw [fromFork, List.dropWhile_append_of_pos fun e he => decide_eq_true (hno e he),
    List.dropWhile_cons_of_neg (by simp [Call.kind])]

/-- What comes before the fork does not fail, and what comes after it launches the workload. -/
theorem launched_of_fork {p : Sys Unit} {afterFork : Except Errno ForkResult → Sys Unit}
    (h₀ : List Event) (hno₀ : ∀ e ∈ h₀, e.call.kind ≠ .fork)
    (hno : p.Uses fun (c : Call) => c.kind ≠ .fork) (hp : Sure BorneBefore p fun _ => True)
    (hafter : ∀ a h', Unrefused ⟨.fork, a⟩ → (∀ e ∈ h', BorneAfter e) →
      (afterFork a).Runs h' out → Request.Launched (⟨.fork, a⟩ :: h') out)
    (hr : (p >>= fun _ => sys .fork >>= afterFork).Runs h out)
    (hbefore : ∀ e ∈ beforeFork (h₀ ++ h), BorneBefore e)
    (hfrom : ∀ e ∈ fromFork (h₀ ++ h), BorneAfter e) :
    Request.Launched (h₀ ++ h) out := by
  -- No program up to the fork forks
  have hnofork : ∀ {h₁ q}, p.Reaches h₁ q → ∀ e ∈ h₀ ++ h₁, e.call.kind ≠ .fork := by
    intro h₁ q hr₁ e he
    rcases List.mem_append.1 he with he | he
    · exact hno₀ e he
    · exact hno.mem (e := e) hr₁ he
  -- So what it has called is borne
  have hborne : ∀ {h₁ h₂ r}, h = h₁ ++ h₂ → p.Runs h₁ r → ∃ u, r = .ok u ∧ True := by
    rintro h₁ h₂ r rfl hr₁
    refine hp.ends (fun e he => hbefore e ?_) hr₁
    rw [← List.append_assoc]
    exact mem_beforeFork (hnofork hr₁) (List.mem_append_right _ he)
  -- It has failed, halted, or come to the fork
  rcases runs_bind_cases hr with ⟨e, -, hr₁⟩ | ⟨n, -, hr₁⟩ | ⟨⟨⟩, h₁, h₂, hr₁, hr₂, rfl⟩
  · obtain ⟨_, heq, -⟩ := hborne (List.append_nil h).symm hr₁
    cases heq
  · obtain ⟨_, heq, -⟩ := hborne (List.append_nil h).symm hr₁
    cases heq
  · obtain ⟨a, h₃, rfl, hr₃⟩ := runs_sys_bind.1 hr₂
    rw [← List.append_assoc, fromFork_eq (hnofork hr₁)] at hfrom
    have hlaunched := hafter a h₃ (hfrom _ List.mem_cons_self rfl)
      (fun e he => hfrom e (List.mem_cons_of_mem _ he)) hr₃
    rw [← List.append_assoc]
    exact hlaunched.append_left (h₀ ++ h₁)

/-- A request that can be launched is launched if no call is refused that enters a namespace, sets
    the score or a handler or makes an eventfd, nor any after the fork but those that change
    the ids. There only has to be a process to attach to. -/
theorem Request.wrap_tolerates {r : Request} (hreq : r.Launchable) (hr : r.wrap.Runs h out)
    (hbefore : ∀ e ∈ beforeFork h, BorneBefore e) (hfrom : ∀ e ∈ fromFork h, BorneAfter e) :
    Launched h out ∨ ∃ req e, r = attach req ∧ (firstChildPidOf req.pid).Runs h (.err e) ∧
      out = .err e := by
  cases r with
  | create req =>
    refine .inl (launched_of_fork [] nofun ?_ req.prologue_tolerates
      (fun a h' ha hh hr => CreateRequest.afterFork_tolerates hreq ha hh hr) hr hbefore hfrom)
    -- The prologue forks nothing
    exact req.prologue_uses.mono fun c hc heq => by
      rw [Call.within, heq] at hc
      exact absurd hc (by decide)
  | attach req =>
    have heq : req.wrap = firstChildPidOf req.pid >>= fun targetPid =>
        req.join targetPid >>= fun _ => sys .fork >>= req.afterFork := by
      unfold AttachRequest.wrap AttachRequest.prologue AttachRequest.join
      simp only [bind_assoc]
    change req.wrap.Runs h out at hr
    rw [heq] at hr
    -- No child to attach to, or the two halves as above
    rcases runs_bind_cases hr with ⟨e, rfl, hr₁⟩ | ⟨n, -, hr₁⟩ | ⟨pid, h₁, h₂, hr₁, hr₂, rfl⟩
    · exact .inr ⟨req, e, rfl, hr₁, rfl⟩
    · exact absurd hr₁ (ProcTable.firstChildPidOf_returns _ h n)
    · refine .inl (launched_of_fork _ ?_ ?_ (req.join_tolerates pid)
        (fun a h' ha hh hr => AttachRequest.afterFork_tolerates hreq ha hh hr) hr₂ hbefore hfrom)
      · intro e he heq
        have hin := (firstChildPidOf_uses req.pid).mem (e := e) hr₁ he
        rw [Call.within, heq] at hin
        exact absurd hin (by decide)
      · exact (req.join_uses pid).mono fun c hc heq => by
          rw [Call.within, heq] at hc
          exact absurd hc (by decide)

/-- The answer of a system that lets nobody set a hostname, a limit or an id. -/
def Call.reluctant : (c : Call) → c.Answer
  | .sethostname _ | .setrlimit .. | .setuid _ | .setgid _ | .setgroups _ => .error Errno.EPERM
  | c => c.grant

theorem unrefused_reluctant {c : Call} (hc : c.kind ∉ [.uts, .rlimit])
    (hid : c.switchesId = false) : c.Unrefused c.reluctant := by
  cases c with
  | sethostname => exact absurd (by simp [Call.kind]) hc
  | setrlimit => exact absurd (by simp [Call.kind]) hc
  | setuid => cases hid
  | setgid => cases hid
  | setgroups => cases hid
  | _ => exact unrefused_grant _

/-- A program with a hostname of its own and for another user. -/
def guest : CreateRequest :=
  { CreateRequest.simple [.uts] with
    hostname := some "guest"
    exec := { (CreateRequest.simple [.uts]).exec with uid := some 1000 } }

theorem guest_launchable : (Request.create guest).Launchable := by
  refine ⟨⟨nofun, ?_, nofun, nofun⟩, nofun, ?_⟩
  · rintro (⟨executable, heq, hnul⟩ | ⟨arg, harg, -⟩ | ⟨kv, hkv, -⟩)
    · cases heq
      exact absurd hnul (by decide)
    · cases harg
    · cases hkv
  · rintro req heq hm
    cases heq
    exact absurd hm (by decide)

/-- It is started even if it gets neither. -/
theorem wrap_tolerates_guest : ∃ h out, (Request.create guest).wrap.Runs h out ∧
    (⟨.sethostname "guest", .error Errno.EPERM⟩ : Event) ∈ h ∧
    (⟨.setuid 1000, .error Errno.EPERM⟩ : Event) ∈ h ∧ Request.Launched h out := by
  have hr := (Request.create guest).wrap.eval_runs (fun _ => Call.reluctant) []
  have hanswer : ∀ e ∈ ((Request.create guest).wrap.eval (fun _ => Call.reluctant) []).1,
      e.answer = e.call.reluctant := by
    intro e he
    obtain ⟨h₁, h₂, hsplit⟩ := List.append_of_mem he
    exact eval_follows _ (Request.create guest).wrap [] h₁ e h₂ hsplit
  -- What is refused on these answers is the hostname, the limits and the ids
  have hborne : ∀ {e : Event}, e.answer = e.call.reluctant → e.call.kind ∉ [.uts, .rlimit] →
      e.call.switchesId = false → Unrefused e := by
    intro e ha hk hid
    unfold Unrefused
    rw [ha]
    exact unrefused_reluctant hk hid
  have hrefused : ∀ {c : Call},
      (∃ e ∈ ((Request.create guest).wrap.eval (fun _ => Call.reluctant) []).1, e.call = c) →
      (⟨c, c.reluctant⟩ : Event) ∈
        ((Request.create guest).wrap.eval (fun _ => Call.reluctant) []).1 := by
    rintro c ⟨⟨c, a⟩, he, rfl⟩
    exact hanswer _ he ▸ he
  have hlate : ∀ e ∈ fromFork ((Request.create guest).wrap.eval (fun _ => Call.reluctant) []).1,
      e.call.kind ∉ [.uts, .rlimit] := by decide
  refine ⟨_, _, hr, hrefused (by decide), hrefused (by decide),
    (Request.wrap_tolerates guest_launchable hr ?_ ?_).resolve_right ?_⟩
  · -- Before the fork no essential call is refused
    intro e he hk
    refine hborne (hanswer e (List.takeWhile_subset _ he)) ?_ (switchesId_of_kind ?_)
    · exact (by decide : ∀ k ∈ essentialKinds, k ∉ [.uts, .rlimit]) _ hk
    · exact (by decide : ∀ k ∈ essentialKinds, k ≠ .cred) _ hk
  · exact fun e he hid => hborne (hanswer e (List.dropWhile_subset _ he)) (hlate e he) hid
  · -- The request is not one to attach
    rintro ⟨req, e, heq, -⟩
    cases heq

end Styrolite
