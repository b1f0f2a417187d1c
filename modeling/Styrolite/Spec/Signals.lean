import Styrolite.Spec.Request

/-!
# Signals on their way to the workload

The supervisor installs `forward_signal`, forks, and stores the child's process
id in `CHILD_PID`; the child, which inherits both, sets the handlers back. What a
process would do with a signal is read off its history. A run here is one of a
`wrap` in which signals arrive at the supervisor between any two of its calls, and
are delivered to whom it sends them at any later time.

## Key results

- `root_childPid`, `Duo.armed`: what the supervisor does with a signal
- `child_handler`: and what the child does
- `SignalRun.reachable`: the configurations of a run are those of the `wrap`
-/

namespace Styrolite

open Prog Kernel

/-! ## What a history leaves behind -/

/-- What an event makes of `CHILD_PID`. -/
def setChildPid (pid : Int) : Event → Int
  | ⟨.storeChildPid p, _⟩ => p
  | _ => pid

/-- `CHILD_PID` in a process with the history. -/
def childPidOf (h : List Event) : Int := h.foldl setChildPid 0

/-- What an event makes of the handler of a signal. -/
def setHandler (sig : Signal) (handler : SigHandler) : Event → SigHandler
  | ⟨.signal s new, .ok _⟩ => if s = sig then new else handler
  | _ => handler

/-- The handler of a signal in a process with the history. -/
def handlerOf (sig : Signal) (h : List Event) : SigHandler := h.foldl (setHandler sig) .sigDfl

/-- Events that store no pid leave `CHILD_PID`. -/
theorem foldl_setChildPid {h : List Event} (hno : ∀ e ∈ h, ∀ p, e.call ≠ .storeChildPid p)
    (pid : Int) : h.foldl setChildPid pid = pid := by
  induction h with
  | nil => rfl
  | cons e h ih =>
    have he : setChildPid pid e = pid := by
      unfold setChildPid
      split
      · next p u => exact absurd rfl (hno _ List.mem_cons_self p)
      · rfl
    rw [List.foldl_cons, he, ih fun e' he' => hno e' (List.mem_cons_of_mem e he')]

/-- What is stored last counts. -/
theorem childPidOf_append_store {h₁ h₂ : List Event} {p : Int} {u : Unit}
    (hno : ∀ e ∈ h₂, ∀ p, e.call ≠ .storeChildPid p) :
    childPidOf (h₁ ++ ⟨.storeChildPid p, u⟩ :: h₂) = p := by
  rw [childPidOf, List.foldl_append, List.foldl_cons]
  exact foldl_setChildPid hno p

/-- A history that sets no handler for the signal leaves it as it was. -/
theorem foldl_setHandler_kept {h : List Event} {sig : Signal}
    (hno : ∀ new u, (⟨.signal sig new, .ok u⟩ : Event) ∉ h) (old : SigHandler) :
    h.foldl (setHandler sig) old = old := by
  induction h with
  | nil => rfl
  | cons e h ih =>
    have he : setHandler sig old e = old := by
      -- Only a `sigaction` for the signal itself would set it
      unfold setHandler
      split
      · next s new u =>
        refine if_neg fun hs => ?_
        subst hs
        exact hno new u List.mem_cons_self
      · rfl
    rw [List.foldl_cons, he, ih fun new u hmem => hno new u (List.mem_cons_of_mem e hmem)]

/-- A history that sets one and the same handler leaves the signal with that. -/
theorem foldl_setHandler_set {h : List Event} {sig : Signal} {new : SigHandler}
    (hone : ∀ new' u, (⟨.signal sig new', .ok u⟩ : Event) ∈ h → new' = new) {old : SigHandler}
    (hset : old = new ∨ (⟨.signal sig new, .ok ()⟩ : Event) ∈ h) :
    h.foldl (setHandler sig) old = new := by
  -- Induction on the history, from whatever handler there was
  induction h generalizing old with
  | nil => exact hset.resolve_right List.not_mem_nil
  | cons e h ih =>
    rw [List.foldl_cons]
    refine ih (fun new' u hmem => hone new' u (List.mem_cons_of_mem e hmem)) ?_
    rcases hset with rfl | hset
    · -- the handler is the right one, and `e` does not set another
      left
      unfold setHandler
      split
      · next s new' u =>
        by_cases hs : s = sig
        · subst hs
          rw [if_pos rfl]
          exact hone new' u List.mem_cons_self
        · exact if_neg hs
      · rfl
    · rcases List.mem_cons.1 hset with rfl | hset
      · exact .inl (if_pos rfl)
      · exact .inr hset

/-! ## The calls of a `wrap` that matter -/

/-- The call stores no process id, and sets no handler but this one. -/
def Call.Installs (handler : SigHandler) (c : Call) : Prop :=
  (∀ p, c ≠ .storeChildPid p) ∧ ∀ sig new, c = .signal sig new → new = handler

/-- A call that is no `sigaction` installs nothing. -/
theorem Call.installs_of_kind {handler : SigHandler} {c : Call} (hk : c.kind ≠ .signal) :
    c.Installs handler := by
  constructor
  · rintro p rfl
    exact hk rfl
  · rintro sig new rfl
    exact absurd rfl hk

/-- A `sigaction` installs its own handler. -/
theorem Call.installs_signal (sig : Signal) (handler : SigHandler) :
    (Call.signal sig handler).Installs handler := by
  constructor
  · simp
  · intro sig' new heq
    cases heq
    rfl

/-- A program that makes no `sigaction` installs nothing. -/
theorem installs_of_uses {α : Type} {p : Sys α} {ks : List Call.Kind} {handler : SigHandler}
    (hp : p.Uses (Call.within ks)) (hks : Call.Kind.signal ∉ ks) :
    p.Uses (Call.Installs handler) :=
  hp.mono fun _ hc => Call.installs_of_kind fun heq => hks (heq ▸ hc)

/-- A single call that is no `sigaction` installs nothing. -/
theorem installs_sys {c : Call} {handler : SigHandler} (hk : c.kind ≠ .signal) :
    Prog.Uses (α := no_index c.Answer) (Call.Installs handler) (sys c) :=
  Uses.sys (I := calls) (Call.installs_of_kind hk)

/-- The supervisor only sets handlers that forward. -/
theorem setupParentSignalHandlers_installs :
    setupParentSignalHandlers.Uses (Call.Installs .forwardSignal) :=
  .forM fun sig _ => .bind (Uses.sys (I := calls) (Call.installs_signal sig _)) fun _ =>
    .mapErr (.check _ _)

/-- The child only sets handlers back. -/
theorem resetChildSignalHandlers_installs :
    resetChildSignalHandlers.Uses (Call.Installs .sigDfl) :=
  .forM fun sig _ => .bind (Uses.sys (I := calls) (Call.installs_signal sig _)) fun _ =>
    .mapErr (.check _ _)

/-- Halting on an error installs nothing more. -/
theorem orExit_installs {p : Sys Unit} {handler : SigHandler}
    (hp : p.Uses (Call.Installs handler)) : (orExit p).Uses (Call.Installs handler) := by
  refine .bind (.attempt hp) fun r => ?_
  cases r with
  | error e => exact .halt 1
  | ok u => exact .pure ()

/-- Every forwarded signal has its handler when the supervisor's are set. -/
theorem setupParentSignalHandlers_sets {h : List Event} {sig : Signal}
    (hr : setupParentSignalHandlers.RanIn h ()) (hsig : sig ∈ forwardedSignals) :
    (⟨.signal sig .forwardSignal, .ok ()⟩ : Event) ∈ h := by
  obtain ⟨a, hsys, hmap⟩ := (RanIn.forM hr sig hsig).bind
  obtain ⟨u, rfl⟩ := hmap.mapErr.check
  exact hsys.sys

/-- Every forwarded signal has its handler back when the child's are reset. -/
theorem resetChildSignalHandlers_sets {h : List Event} {sig : Signal}
    (hr : resetChildSignalHandlers.RanIn h ()) (hsig : sig ∈ forwardedSignals) :
    (⟨.signal sig .sigDfl, .ok ()⟩ : Event) ∈ h := by
  obtain ⟨a, hsys, hmap⟩ := (RanIn.forM hr sig hsig).bind
  obtain ⟨u, rfl⟩ := hmap.mapErr.check
  exact hsys.sys

/-- What does not exit has gone well. -/
theorem orExit_ranIn {p : Sys Unit} {h : List Event} (hr : (orExit p).RanIn h ()) :
    p.RanIn h () := by
  obtain ⟨h', hinf, hr'⟩ := hr
  obtain ⟨x, h₁, h₂, hat, hend, rfl⟩ := runs_bind_ok.1 hr'
  rcases runs_attempt_ok.1 hat with ⟨u, rfl, hp⟩ | ⟨e, rfl, -⟩
  · exact (hp.ranIn.append_left h₂).mono hinf
  · cases (runs_done.1 hend).2

/-- SIGPIPE is the one signal that `execute` sets back. -/
theorem ExecutableSpec.execute_installs (exec : ExecutableSpec) :
    exec.execute.Uses (Call.Installs .sigDfl) := by
  refine .bind (installs_sys (by decide)) fun _ => .bind (.check _ _) fun _ =>
    .bind (.check _ _) fun _ => .bind (.check _ _) fun _ => .bind (.check _ _) fun _ =>
    .bind (.whenSome fun _ _ => .bind (installs_sys (by simp [Call.kind])) fun _ => .check _ _) fun _ =>
    .bind (.when fun _ => installs_of_uses setNoNewPrivs_uses (by decide)) fun _ =>
    .bind (installs_of_uses exec.installSeccomp_uses (by decide)) fun _ =>
    .bind (.whenSome fun _ _ => .mapErr (installs_of_uses (changeOnexec_uses _) (by decide))) fun _ =>
    .bind (.bind (Uses.sys (I := calls) (Call.installs_signal .SIGPIPE _)) fun _ =>
      .mapErr (.check _ _)) fun _ => .bind (installs_sys (by simp [Call.kind])) fun r => ?_
  cases r with
  | ok u => exact .pure _
  | error e => exact .fail _

namespace Request

/-- What is done before the fork. -/
def prologue : Request → Sys Unit
  | create req => req.prologue
  | attach req => req.prologue

/-- What the supervisor does after it. -/
def supervise : Request → Int → Sys Unit
  | create req => req.supervise
  | attach _ => AttachRequest.supervise

/-- What the child does after it. -/
def childMain : Request → Sys Unit
  | create req => req.childMain
  | attach req => req.childMain

/-- Before the fork handlers are only set to forward. -/
theorem prologue_installs (r : Request) : r.prologue.Uses (Call.Installs .forwardSignal) := by
  cases r with
  | create req =>
    -- Only the part about signals installs handlers
    exact .bind (.attempt (installs_of_uses req.prepareCgroup_uses (by decide))) fun _ =>
      .bind (installs_of_uses (unshare_uses _) (by decide)) fun _ =>
      .bind (.attempt (installs_of_uses CreateRequest.updateBoottime_uses (by decide))) fun _ =>
      .bind (.attempt (installs_of_uses req.updateHostname_uses (by decide))) fun _ =>
      .bind (.attempt (installs_of_uses req.exec.setProcessLimits_uses (by decide))) fun _ =>
      .bind (orExit_installs setupParentSignalHandlers_installs) fun _ =>
      .bind (installs_sys (by decide)) fun _ => .bind (.check _ _) fun _ =>
      .bind (installs_sys (by decide)) fun _ => .check _ _
  | attach req =>
    exact .bind (installs_of_uses (firstChildPidOf_uses _) (by decide)) fun _ =>
      .bind (.attempt (installs_of_uses req.attachCgroup_uses (by decide))) fun _ =>
      .bind (installs_of_uses (setns_uses _ _) (by decide)) fun _ =>
      .bind (.attempt (installs_of_uses req.exec.setProcessLimits_uses (by decide))) fun _ =>
      .bind (installs_of_uses (applyOomScore_uses _) (by decide)) fun _ =>
      orExit_installs setupParentSignalHandlers_installs

/-- Once the prologue is over the supervisor has handlers for all the forwarded signals. -/
theorem prologue_sets {r : Request} {h : List Event} (hr : r.prologue.Runs h (.ok ()))
    {sig : Signal} (hsig : sig ∈ forwardedSignals) :
    (⟨.signal sig .forwardSignal, .ok ()⟩ : Event) ∈ h := by
  refine setupParentSignalHandlers_sets (orExit_ranIn ?_) hsig
  -- The handlers are set at the end of the prologue, after the steps that may come before
  cases r with
  | create req =>
    obtain ⟨_, -, h₁⟩ := hr.ranIn.bind
    obtain ⟨_, -, h₂⟩ := h₁.bind
    obtain ⟨_, -, h₃⟩ := h₂.bind
    obtain ⟨_, -, h₄⟩ := h₃.bind
    obtain ⟨_, -, h₅⟩ := h₄.bind
    obtain ⟨⟨⟩, hset, -⟩ := h₅.bind
    exact hset
  | attach req =>
    obtain ⟨_, -, h₁⟩ := hr.ranIn.bind
    obtain ⟨_, -, h₂⟩ := h₁.bind
    obtain ⟨_, -, h₃⟩ := h₂.bind
    obtain ⟨_, -, h₄⟩ := h₃.bind
    obtain ⟨_, -, hset⟩ := h₄.bind
    exact hset

/-- The child only sets handlers back. -/
theorem childMain_installs (r : Request) : r.childMain.Uses (Call.Installs .sigDfl) := by
  cases r with
  | create req =>
    -- The same for the child, which resets them
    exact .bind (.bind (orExit_installs resetChildSignalHandlers_installs) fun _ =>
        .bind (installs_of_uses req.stage_uses (by decide)) fun _ =>
        .bind (installs_sys (by decide)) fun _ => .bind (.check _ _) fun _ => .pure _) fun _ =>
      .bind (installs_sys (by decide)) fun _ => .bind (.check _ _) fun _ =>
      .bind (.when fun _ => installs_of_uses req.pivotIfMount_uses (by decide)) fun _ =>
      .bind (installs_of_uses (applyOomScore_uses _) (by decide)) fun _ =>
      .bind (installs_of_uses (setupConsole_uses _) (by decide)) fun _ =>
      .bind (installs_of_uses (preexecPrep_uses _ _) (by decide)) fun _ =>
      req.exec.execute_installs
  | attach req =>
    exact .bind (orExit_installs resetChildSignalHandlers_installs) fun _ =>
      .bind (installs_of_uses (preexecPrep_uses _ _) (by decide)) fun _ =>
      req.exec.execute_installs

/-- After the fork the supervisor stores its child's process id, and then neither stores
    another nor touches a handler. -/
theorem supervise_stores {r : Request} {child : Int} {h : List Event} {p : Sys Unit}
    (hr : (r.supervise child).Reaches h p) :
    h = [] ∨ ∃ u h', h = ⟨.storeChildPid child, u⟩ :: h' ∧ ∀ e ∈ h', e.call.kind ≠ .signal := by
  -- Nothing after the store has to do with signals
  have hk : ∀ {α : Type} {p : Sys α} {ks : List Call.Kind}, p.Uses (Call.within ks) →
      Call.Kind.signal ∉ ks → p.Uses fun (c : Call) => c.kind ≠ .signal := fun hp hks =>
    hp.mono fun _ hc heq => hks (heq ▸ hc)
  have hwait : Uses (fun (c : Call) => c.kind ≠ .signal) (do
      let exitcode ← waitForPid child
      reapChildren
      (Prog.halt exitcode : Sys Unit)) :=
    .bind (hk (waitForPid_uses child) (by decide)) fun _ =>
      .bind (hk reapChildren_uses (by decide)) fun _ => .halt _
  obtain ⟨rest, heq, huses⟩ : ∃ rest : Sys Unit,
      r.supervise child = .call (I := calls) (.storeChildPid child) (fun _ => rest) ∧
        rest.Uses fun (c : Call) => c.kind ≠ .signal := by
    cases r with
    | create req =>
      refine ⟨do
        let _ ← check (← sys (.efdRead .parent))
        req.configure child
        let exitcode ← waitForPid child
        reapChildren
        Prog.halt exitcode, rfl, ?_⟩
      exact .bind (Uses.sys (I := calls) (by decide)) fun _ => .bind (.check _ _) fun _ =>
        .bind (hk (req.configure_uses child) (by decide)) fun _ => hwait
    | attach req => exact ⟨_, rfl, hwait⟩
  rw [heq] at hr
  -- The store comes first
  rcases reaches_call.1 hr with ⟨rfl, -⟩ | ⟨u, h', rfl, hrest⟩
  · exact .inl rfl
  · exact .inr ⟨u, h', rfl, fun e he => huses.mem (e := e) hrest he⟩

/-- What goes on from the answer to the fork. -/
def afterFork : Request → Except Errno ForkResult → Sys Unit
  | create req => req.afterFork
  | attach req => req.afterFork

/-- A wrap is the prologue and then the fork. -/
theorem wrap_eq (r : Request) :
    r.wrap = r.prologue >>= fun _ => .call (I := calls) .fork r.afterFork := by
  cases r with
  | create req => exact req.wrap_eq
  | attach req => exact req.wrap_eq

/-- In the supervisor. -/
theorem afterFork_parent (r : Request) (child : Int) :
    r.afterFork (.ok (.parent child)) = r.supervise child := by
  cases r with
  | create req => exact req.afterFork_parent child
  | attach req => rfl

/-- In the child. -/
theorem afterFork_child (r : Request) : r.afterFork (.ok .child) = r.childMain := by
  cases r with
  | create req => exact req.afterFork_child
  | attach req => rfl

/-- A fork that fails ends the run. -/
theorem afterFork_error (r : Request) (e : Errno) : ∃ x, r.afterFork (.error e) = .done x := by
  cases r with
  | create req => exact ⟨_, req.afterFork_error e⟩
  | attach req => exact ⟨_, rfl⟩

/-- There is no second fork. -/
theorem afterFork_noFork (r : Request) (a : Except Errno ForkResult) :
    (r.afterFork a).Uses linux.NoSpawn := by
  cases r with
  | create req => exact noSpawn_of_uses (req.afterFork_uses a) (by decide)
  | attach req => exact noSpawn_of_uses (req.afterFork_uses a) (by decide)

/-- There is no fork before. -/
theorem prologue_noFork (r : Request) : r.prologue.Uses linux.NoSpawn := by
  cases r with
  | create req => exact noSpawn_of_uses req.prologue_uses (by decide)
  | attach req => exact noSpawn_of_uses req.prologue_uses (by decide)

end Request

/-! ## The two processes -/

/-- Linux, where the process id of a child is positive. -/
def linuxPids : Kernel calls Int World :=
  linux.restrict fun _ _ _ c a =>
    ∀ q : Int, (⟨c, a⟩ : Event) = ⟨.fork, .ok (.parent q)⟩ → 0 < q

namespace Request

variable {r : Request} {root : Int} {s₀ : World} {cfg : Config calls Int World Err Unit}

/-- The supervisor and its child. Before the fork the supervisor made the calls of `h₀`; since
    then it has made those of `h₁` and the child those of `h₂`. -/
structure Duo (r : Request) (root : Int) (cfg : Config calls Int World Err Unit) (child : Int)
    (h₀ h₁ h₂ : List Event) (p₁ p₂ : Sys Unit) : Prop where
  pos : 0 < child
  ne : child ≠ root
  prologue : r.prologue.Runs h₀ (.ok ())
  rootProc : cfg.procs root = some ⟨h₀ ++ ⟨.fork, .ok (.parent child)⟩ :: h₁, p₁⟩
  childProc : cfg.procs child = some ⟨h₀ ++ ⟨.fork, .ok .child⟩ :: h₂, p₂⟩
  others : ∀ p, p ≠ root → p ≠ child → cfg.procs p = none
  rootReaches : (r.supervise child).Reaches h₁ p₁
  childReaches : r.childMain.Reaches h₂ p₂

/-- Every reachable configuration of either `wrap`. -/
theorem fork_cases (hr : linuxPids.Reachable root r.wrap s₀ cfg) :
    (∃ h q, Solo linuxPids root s₀ r.wrap cfg h q) ∨
      ∃ child h₀ h₁ h₂ p₁ p₂, r.Duo root cfg child h₀ h₁ h₂ p₁ p₂ := by
  rw [wrap_eq] at hr ⊢
  -- The general case split on runs with one fork, for the supervisor and its child
  have hcases := reachable_cases (K := linuxPids)
    (fun (_ : ForkPoint calls Int Unit .fork) _ _ _ => True) r.prologue_noFork
    (fun _ a => r.afterFork_noFork a) (fun _ _ => trivial) (fun _ _ _ _ _ _ _ _ _ _ => trivial)
    (fun _ _ _ _ _ _ _ _ _ _ => trivial) hr
  rcases hcases with hsolo | ⟨f, h₁, h₂, p₁, p₂, hf, hduo, -⟩
  · exact .inl hsolo
  · obtain ⟨ha, hb⟩ := spawn_some hf.spawn
    have hpos := hf.allows.2 f.child (by rw [ha])
    have hroot := hduo.rootProc
    have hchild := hduo.childProc
    have hrr := hduo.rootReaches
    have hcr := hduo.childReaches
    -- What the answers to the fork say on either side
    simp only [ForkPoint.rootHist, ForkPoint.childHist, ha, hb] at hroot hchild hrr hcr
    rw [afterFork_parent] at hrr
    rw [afterFork_child] at hcr
    exact .inr ⟨f.child, f.hist, h₁, h₂, p₁, p₂, hpos, hf.ne, hf.runs, hroot, hchild, hduo.others,
      hrr, hcr⟩

/-- The calls of the prologue are neither `fork` nor `waitpid`. -/
theorem prologue_kinds (r : Request) :
    r.prologue.Uses fun (c : Call) => c.kind ≠ .fork ∧ c.kind ≠ .wait := by
  have hk : ∀ {ks : List Call.Kind}, r.prologue.Uses (Call.within ks) → Call.Kind.fork ∉ ks →
      Call.Kind.wait ∉ ks → r.prologue.Uses fun (c : Call) => c.kind ≠ .fork ∧ c.kind ≠ .wait :=
    fun hp hfork hwait => hp.mono fun _ hc => ⟨fun heq => hfork (heq ▸ hc), fun heq => hwait (heq ▸ hc)⟩
  cases r with
  | create req => exact hk req.prologue_uses (by decide) (by decide)
  | attach req => exact hk req.prologue_uses (by decide) (by decide)

/-- What the supervisor alone has done. -/
theorem solo_event {h : List Event} {q : Sys Unit} (hsolo : Solo linuxPids root s₀ r.wrap cfg h q)
    {e : Event} (he : e ∈ h) : e.call.Installs .forwardSignal ∧ e.call.kind ≠ .wait := by
  rw [wrap_eq] at hsolo
  have hbody : ∀ s h (x : Unit) a, linuxPids.allows s root h .fork a → linuxPids.spawn .fork a = none →
      ∃ y, r.afterFork a = .done y := by
    intro s h x a hallows hspawn
    cases a with
    | error e => exact r.afterFork_error e
    | ok x =>
      cases x with
      | parent q => cases hspawn
      | child => exact absurd hallows.1 id
  -- An event of a process alone is of the prologue, or is a fork that failed
  rcases hsolo.event_cases hbody he with ⟨h', hat⟩ | hfork
  · exact ⟨r.prologue_installs _ _ hat, (r.prologue_kinds _ _ hat).2⟩
  · rw [hfork]
    exact ⟨Call.installs_of_kind (by decide), by decide⟩

end Request

/-- The process id of the child that the supervisor forked. -/
def forkedPid (h : List Event) : Option Int :=
  h.findSome? fun e => match e with
    | ⟨.fork, .ok (.parent child)⟩ => some child
    | _ => none

/-- `setup_parent_signal_handlers` has returned. (A signal that arrives earlier, and has no handler
    yet, ends the supervisor.) -/
def Armed (h : List Event) : Prop := ∀ sig ∈ forwardedSignals, handlerOf sig h = .forwardSignal

/-- The supervisor has waited for its child, whose process id is free from then on. -/
def Reaped (h : List Event) : Prop :=
  ∃ child st, forkedPid h = some child ∧ (⟨.waitpid child, .ok st⟩ : Event) ∈ h

/-- The supervisor has stored the process id of its child. -/
def Stored (h : List Event) : Prop := ∃ child u, (⟨.storeChildPid child, u⟩ : Event) ∈ h

namespace Request

variable {r : Request} {root : Int} {s₀ : World} {cfg : Config calls Int World Err Unit}
  {child : Int} {h₀ h₁ h₂ : List Event} {p₁ p₂ : Sys Unit}

/-- The pid that the supervisor has forked. -/
theorem Duo.forkedPid (hd : r.Duo root cfg child h₀ h₁ h₂ p₁ p₂) :
    forkedPid (h₀ ++ ⟨.fork, .ok (.parent child)⟩ :: h₁) = some child := by
  have hnone : Styrolite.forkedPid h₀ = none := by
    rw [Styrolite.forkedPid, List.findSome?_eq_none_iff]
    intro e he
    split
    · exact absurd rfl (r.prologue_kinds.mem hd.prologue he).1
    · rfl
  unfold Styrolite.forkedPid at hnone ⊢
  rw [List.findSome?_append, hnone]
  rfl

/-- The calls of the prologue, seen from a later history. -/
theorem Duo.prologue_event (hd : r.Duo root cfg child h₀ h₁ h₂ p₁ p₂) {e : Event} (he : e ∈ h₀) :
    e.call.Installs .forwardSignal := r.prologue_installs.mem hd.prologue he

/-- Right after the fork the supervisor knows nothing of its child. -/
theorem Duo.fresh (hd : r.Duo root cfg child h₀ [] h₂ p₁ p₂) :
    childPidOf (h₀ ++ [⟨.fork, .ok (.parent child)⟩]) = 0 ∧
      ¬ Stored (h₀ ++ [⟨.fork, .ok (.parent child)⟩]) ∧
      ¬ Reaped (h₀ ++ [⟨.fork, .ok (.parent child)⟩]) := by
  have hearly : ∀ e ∈ h₀ ++ [⟨.fork, .ok (.parent child)⟩],
      e.call.Installs .forwardSignal ∧ e.call.kind ≠ .wait := by
    intro e he
    rcases List.mem_append.1 he with he | he
    · exact ⟨hd.prologue_event he, (r.prologue_kinds.mem hd.prologue he).2⟩
    · obtain rfl := List.mem_singleton.1 he
      exact ⟨Call.installs_of_kind (by simp [Call.kind]), by simp [Call.kind]⟩
  -- Nothing before the fork stores a pid, and nothing waits
  refine ⟨foldl_setChildPid (fun e he => (hearly e he).1.1) 0, ?_, ?_⟩
  · rintro ⟨child', u, hmem⟩
    exact (hearly _ hmem).1.1 child' rfl
  · rintro ⟨child', st, -, hmem⟩
    exact (hearly _ hmem).2 rfl

/-- The supervisor knows its child's process id if and only if it has stored it. -/
theorem root_childPid (hr : linuxPids.Reachable root r.wrap s₀ cfg) {h : List Event} {q : Sys Unit}
    (hproc : cfg.procs root = some ⟨h, q⟩) :
    (childPidOf h = 0 ∧ ¬ Stored h ∧ ¬ Reaped h) ∨
      ∃ child, 0 < child ∧ forkedPid h = some child ∧ childPidOf h = child ∧ Stored h := by
  -- Alone, or beside a child: before and after the store
  rcases fork_cases hr with ⟨h', q', hsolo⟩ | ⟨child, h₀, h₁, h₂, p₁, p₂, hd⟩
  · cases hsolo.proc.symm.trans hproc
    left
    refine ⟨foldl_setChildPid (fun e he => (solo_event hsolo he).1.1) 0, ?_, ?_⟩
    · rintro ⟨child, u, hmem⟩
      exact (solo_event hsolo hmem).1.1 child rfl
    · rintro ⟨child, st, -, hmem⟩
      exact (solo_event hsolo hmem).2 rfl
  · cases hd.rootProc.symm.trans hproc
    have hfork := hd.forkedPid
    rcases supervise_stores hd.rootReaches with rfl | ⟨u, h', rfl, hrest⟩
    · exact .inl hd.fresh
    · right
      refine ⟨child, hd.pos, hfork, ?_, child, u, by simp⟩
      rw [List.append_cons]
      exact childPidOf_append_store fun e he p heq => hrest e he (by rw [heq]; rfl)

/-- The supervisor that has forked has the handlers of its signals in place. -/
theorem Duo.root_handler (hd : r.Duo root cfg child h₀ h₁ h₂ p₁ p₂) {sig : Signal}
    (hsig : sig ∈ forwardedSignals) :
    handlerOf sig (h₀ ++ ⟨.fork, .ok (.parent child)⟩ :: h₁) = .forwardSignal := by
  -- Set in the prologue, and set to nothing else since
  refine foldl_setHandler_set (fun new u hmem => ?_) (.inr ?_)
  · rcases List.mem_append.1 hmem with hmem | hmem
    · exact (hd.prologue_event hmem).2 sig new rfl
    · rcases List.mem_cons.1 hmem with heq | hmem
      · cases heq
      · rcases supervise_stores hd.rootReaches with rfl | ⟨u', h', rfl, hrest⟩
        · cases hmem
        · rcases List.mem_cons.1 hmem with heq | hmem
          · cases heq
          · exact absurd rfl (hrest _ hmem)
  · exact List.mem_append_left _ (prologue_sets hd.prologue hsig)

/-- The child does not know its own process id, and forwards a signal until it has set the
    signal's handler back. -/
theorem child_handler (hr : linuxPids.Reachable root r.wrap s₀ cfg) {pid : Int} (hne : pid ≠ root)
    {h : List Event} {q : Sys Unit} (hproc : cfg.procs pid = some ⟨h, q⟩) {sig : Signal}
    (hsig : sig ∈ forwardedSignals) :
    childPidOf h = 0 ∧
      (handlerOf sig h = .forwardSignal ↔ (⟨.signal sig .sigDfl, .ok ()⟩ : Event) ∉ h) := by
  -- A process other than the supervisor is the child
  rcases fork_cases hr with ⟨h', q', hsolo⟩ | ⟨child, h₀, h₁, h₂, p₁, p₂, hd⟩
  · exact absurd (hsolo.proc_eq hproc).1 hne
  obtain ⟨-, rfl, heq⟩ :=
    (Config.proc_cases hd.rootProc hd.childProc hd.others hproc).resolve_left fun h => hne h.1
  cases heq
  -- After the fork the child only sets handlers back
  have hlate : ∀ e ∈ h₂, e.call.Installs .sigDfl := fun e he =>
    r.childMain_installs.mem (e := e) hd.childReaches he
  constructor
  · refine foldl_setChildPid (fun e he p heq => ?_) 0
    rcases List.mem_append.1 he with he | he
    · exact (hd.prologue_event he).1 p heq
    · rcases List.mem_cons.1 he with rfl | he
      · cases heq
      · exact (hlate e he).1 p heq
  · -- Before the fork the handler was set to forward, which the child inherits
    have hinherited : h₀.foldl (setHandler sig) .sigDfl = .forwardSignal :=
      foldl_setHandler_set (fun new u hmem => (hd.prologue_event hmem).2 sig new rfl)
        (.inr (prologue_sets hd.prologue hsig))
    have hfork : setHandler sig .forwardSignal ⟨.fork, .ok .child⟩ = .forwardSignal := rfl
    have hmem : (⟨.signal sig .sigDfl, .ok ()⟩ : Event) ∈ h₀ ++ ⟨.fork, .ok .child⟩ :: h₂ ↔
        (⟨.signal sig .sigDfl, .ok ()⟩ : Event) ∈ h₂ := by
      constructor
      · intro hmem
        rcases List.mem_append.1 hmem with hmem | hmem
        · cases (hd.prologue_event hmem).2 sig _ rfl
        · rcases List.mem_cons.1 hmem with heq | hmem
          · cases heq
          · exact hmem
      · intro hmem
        exact List.mem_append_right _ (List.mem_cons_of_mem _ hmem)
    rw [handlerOf, List.foldl_append, List.foldl_cons, hinherited, hfork, hmem]
    -- So it forwards until the handler is set back, if ever
    by_cases hreset : (⟨.signal sig .sigDfl, .ok ()⟩ : Event) ∈ h₂
    · rw [foldl_setHandler_set (fun new u hset => (hlate _ hset).2 sig new rfl) (.inr hreset)]
      exact iff_of_false (by decide) (absurd hreset)
    · rw [foldl_setHandler_kept fun new u hset => ?_]
      · exact iff_of_true rfl hreset
      · obtain rfl := (hlate _ hset).2 sig new rfl
        exact hreset hset

/-- After the fork every forwarded signal has its handler. -/
theorem Duo.armed (hd : r.Duo root cfg child h₀ h₁ h₂ p₁ p₂) :
    Armed (h₀ ++ ⟨.fork, .ok (.parent child)⟩ :: h₁) := fun _ hsig => hd.root_handler hsig

end Request

/-! ## Runs under given answers -/

/-- What runs under answers that name positive process ids runs under `linuxPids`. -/
theorem linuxPids_of_under {ω : calls.Answers} {root : Int} {p : Sys Unit} {s₀ : World}
    {cfg : Config calls Int World Err Unit}
    (hpos : ∀ h (q : Int), ω h .fork = Except.ok (ForkResult.parent q) → 0 < q)
    (hr : (linux.under ω).Reachable root p s₀ cfg) : linuxPids.Reachable root p s₀ cfg := by
  refine Reachable.restrict_mono linux (fun s pid h c a ha q heq => ?_) hr
  subst ha
  injection heq with hc ha
  subst hc
  exact hpos h q (eq_of_heq ha)

/-- A pair of processes of a create request is a duo. -/
theorem CreateRequest.Pair.duo {req : CreateRequest} {root child : Int} {s₀ : World}
    {cfg : Config calls Int World Err Unit} {h₀ h₁ h₂ : List Event} {p₁ p₂ : Sys Unit}
    (hp : req.Pair root s₀ cfg child h₀ h₁ h₂ p₁ p₂) (hpos : 0 < child) :
    (Request.create req).Duo root cfg child h₀ h₁ h₂ p₁ p₂ where
  pos := hpos
  ne := hp.ne
  prologue := hp.prologue
  rootProc := hp.rootProc
  childProc := hp.childProc
  others := hp.others
  rootReaches := hp.rootReaches
  childReaches := hp.childReaches

/-! ## Runs -/

/-- A configuration of a `wrap`, and the signals sent to each process and not yet delivered. -/
structure Signalled where
  cfg : Config calls Int World Err Unit
  pending : Int → List Signal

/-- What happens next: a call, a signal that arrives at the supervisor, or one that is delivered
    to a process it was sent to. -/
inductive Happening where
  | call
  | arrive (sig : Signal)
  | deliver (pid : Int) (sig : Signal)

/-- The signal of the `kill`, if any, is on its way. -/
def Signalled.send (s : Signalled) : Option (Int × Signal) → Signalled
  | some (pid, sig) => { s with pending := Function.update s.pending pid (sig :: s.pending pid) }
  | none => s

/-- What a process with the history does with a signal. -/
def reaction (h : List Event) (sig : Signal) : Option (Int × Signal) :=
  if handlerOf sig h = .forwardSignal then forwardSignal (childPidOf h) sig else none

/-- A step of the processes, the arrival of a signal at the supervisor, or the delivery of one
    that is pending elsewhere. -/
inductive SignalStep (root : Int) : Signalled → Happening → Signalled → Prop where
  | call {s : Signalled} {cfg : Config calls Int World Err Unit}
      (hstep : linuxPids.Step s.cfg cfg) : SignalStep root s .call { s with cfg := cfg }
  | arrive {s : Signalled} {h : List Event} {q : Sys Unit} {sig : Signal}
      (hsig : sig ∈ forwardedSignals) (hproc : s.cfg.procs root = some ⟨h, q⟩) (harmed : Armed h) :
      SignalStep root s (.arrive sig) (s.send (reaction h sig))
  | deliver {s : Signalled} {pid : Int} {h : List Event} {q : Sys Unit} {sig : Signal}
      (hsig : sig ∈ forwardedSignals) (hne : pid ≠ root) (hproc : s.cfg.procs pid = some ⟨h, q⟩)
      (hpending : sig ∈ s.pending pid) :
      SignalStep root s (.deliver pid sig)
        (Signalled.send { s with pending := Function.update s.pending pid ((s.pending pid).erase sig) }
          (reaction h sig))

/-- A run of a `wrap` with signals: what happened, each in the state it happened in. -/
inductive SignalRun (r : Request) (root : Int) (s₀ : World) :
    List (Signalled × Happening) → Signalled → Prop where
  | start : SignalRun r root s₀ [] ⟨Config.start root r.wrap s₀, fun _ => []⟩
  | step {t : List (Signalled × Happening)} {s s' : Signalled} {x : Happening}
      (ht : SignalRun r root s₀ t s) (hstep : SignalStep root s x s') :
      SignalRun r root s₀ (t ++ [(s, x)]) s'

namespace SignalRun

variable {r : Request} {root : Int} {s₀ : World} {t : List (Signalled × Happening)} {s : Signalled}

/-- Signals do not change the configurations a `wrap` can come to. -/
theorem reachable (ht : SignalRun r root s₀ t s) : linuxPids.Reachable root r.wrap s₀ s.cfg := by
  induction ht with
  | start => exact .refl
  | step ht hstep ih =>
    cases hstep with
    | call hstep => exact ih.tail hstep
    | arrive hsig hproc harmed =>
      unfold Signalled.send
      split <;> exact ih
    | deliver hsig hne hproc hpending =>
      unfold Signalled.send
      split <;> exact ih

/-- What happened in a run happened in a state of it. -/
theorem happened (ht : SignalRun r root s₀ t s) {x : Signalled × Happening} (hx : x ∈ t) :
    linuxPids.Reachable root r.wrap s₀ x.1.cfg ∧ ∃ s', SignalStep root x.1 x.2 s' := by
  induction ht with
  | start => cases hx
  | step ht hstep ih =>
    rcases List.mem_append.1 hx with hx | hx
    · exact ih hx
    · obtain rfl := List.mem_singleton.1 hx
      exact ⟨ht.reachable, _, hstep⟩

/-- Any configuration a `wrap` can come to is in a run without signals. -/
theorem of_reachable {cfg : Config calls Int World Err Unit}
    (hr : linuxPids.Reachable root r.wrap s₀ cfg) :
    ∃ t, SignalRun r root s₀ t ⟨cfg, fun _ => []⟩ ∧ ∀ x ∈ t, x.2 = .call := by
  induction hr with
  | refl => exact ⟨[], .start, fun x hx => by cases hx⟩
  | tail _ hstep ih =>
    obtain ⟨t, ht, hcalls⟩ := ih
    refine ⟨_, ht.step (.call hstep), fun x hx => ?_⟩
    rcases List.mem_append.1 hx with hx | hx
    · exact hcalls x hx
    · rw [List.mem_singleton.1 hx]

end SignalRun

end Styrolite
