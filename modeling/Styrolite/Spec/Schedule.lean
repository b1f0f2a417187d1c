import Mathlib.Data.Finset.Sort
import Mathlib.Data.String.Basic
import Styrolite.ForStd.Answers
import Styrolite.Spec.Halves

/-!
# Runs of a `wrap` under given answers

The kernel that gives the answers `ω` runs the two processes of a `wrap` in any
order: each of its processes can make the calls that `ω` answers, as far as the
eventfds let it.
-/

namespace Styrolite

open Prog Kernel

/-! ## Answers -/

/-- The answer that reports success; no terminal is found, and no file where one could be. -/
def Call.success (c : Call) : c.Answer := by
  cases c with
  | getpid => exact (1 : Nat)
  | clockGettimeBoottime => exact .ok (0 : Int)
  | capHashIter s =>
    exact ⟨CapabilityBit.all.filter (· ∈ s), List.Nodup.filter _ (by decide),
      fun c => by simp [c.mem_all]⟩
  | strHashIter s => exact ⟨s.sort (· ≤ ·), s.sort_nodup _, fun x => s.mem_sort _⟩
  | isatty fd => exact false
  | enter f => exact ()
  | fsMetadata path => exact .ok { isDir := true }
  | fsSymlinkMetadata path => exact .ok { isDir := true }
  | fsExists path => exact false
  | fsReadLink path => exact .ok ""
  | fsReadToString path => exact .ok "2"
  | fsReadDir path => exact .ok []
  | storeChildPid pid => exact ()
  | efdRead x => exact .ok (1 : Nat)
  | fork => exact .ok (.parent 2)
  | waitpid pid => exact .ok (.exited pid 0)
  | reapChildren => exact []
  | openTree path flags => exact .ok (3 : Nat)
  | getuid => exact (0 : UInt32)
  | getgid => exact (0 : UInt32)
  | capget pid => exact .ok (capResultToData { effective := 0, permitted := 0, inheritable := 0 })
  | _ => exact Except.ok ()

/-- Every call succeeds. -/
def succeeding : calls.Answers := fun _ => Call.success

/-- Every call succeeds but `c`, which is answered with `a`. -/
def answering (c : Call) (a : c.Answer) : calls.Answers := fun _ => Function.update Call.success c a

/-- What runs under given answers runs under Linux. -/
theorem linux_of_under {ω : calls.Answers} {root : Int} {p : Sys Unit} {s₀ : World}
    {cfg : Config calls Int World Err Unit} (hr : (linux.under ω).Reachable root p s₀ cfg) :
    linux.Reachable root p s₀ cfg := Reachable.of_restrict _ hr

/-- One namespace of each kind for all processes, each of them numbered by its own number. -/
def World.fresh : World where
  efd _ := { count := 0, semaphore := false }
  ns :=
    { serial := 0, ns := fun _ _ => 0, forChildren := fun _ _ => 0, owner := fun _ _ => 0,
      procView := fun _ => 0, number := fun p id => if id = 0 then some p else none,
      members := fun _ => 0, oom := fun _ => "0" }

/-- The first world knows the process that runs `wrap`, and no other namespaces. -/
theorem World.fresh_initial (root : Int) : World.fresh.Initial root where
  forChildren := rfl
  procView := rfl
  number := rfl
  bound _ _ := Nat.le_refl 0
  unused _ hid := ⟨rfl, fun _ => if_neg (Nat.pos_iff_ne_zero.1 hid)⟩

/-- `BPF_RET | BPF_K` with `SECCOMP_RET_ALLOW`: a filter that allows every call. -/
def BpfInstruction.allowAll : BpfInstruction := { code := 0x06, jt := 0, jf := 0, k := 0x7fff0000 }

/-- A program to run under a root directory, in the given namespaces. -/
def CreateRequest.simple (nss : List Namespace) : CreateRequest :=
  { (default : CreateRequest) with
    rootfs := some "/srv/rootfs"
    exec := { (default : ExecutableSpec) with executable := some "/bin/true" }
    namespaces := some nss }

/-! ## Calls that Linux answers in any way at any time -/

/-- The kernel gives any answer to the call at any time. -/
def Call.free : Call → Bool
  | .efdRead _ | .fork | .procWrite .oomScoreAdj _ => false
  | _ => true

/-- The kernel may answer a free call as it likes. -/
theorem World.allows_of_free (s : World) (p : Int) {c : Call} (a : c.Answer)
    (hc : c.free = true) : s.allows p c a := by
  unfold World.allows
  split
  · exact nomatch hc
  · exact nomatch hc
  · exact nomatch hc
  · trivial

/-- A call that is neither about eventfds nor a fork nor about the OOM score is free. -/
theorem Call.free_of_kind {c : Call} (hc : c.kind ∉ [.efd, .fork, .oom]) : c.free = true := by
  unfold Call.free
  split <;> simp_all [Call.kind]

/-- A program without calls of these kinds makes free calls only. -/
theorem Call.free_of_uses {α : Type} {p q : Sys α} {ks : List Call.Kind} {h : List Event}
    (hp : p.Uses (Call.within ks)) (hks : ∀ k ∈ ks, k ∉ [.efd, .fork, .oom])
    (hr : p.Reaches h q) : ∀ e ∈ h, e.call.free = true :=
  fun e he => Call.free_of_kind (hks _ (hp.mem (e := e) hr he))

/-- A fork is not free. -/
theorem Call.ne_fork_of_free {c : Call} (hc : c.free = true) : c ≠ .fork := by
  rintro rfl
  exact nomatch hc

namespace CreateRequest

variable {req : CreateRequest} {root child : Int} {s₀ : World} {ω : calls.Answers}
  {cfg : Config calls Int World Err Unit} {h h₀ h₁ h₂ : List Event} {p₁ p₂ q : Sys Unit}

/-- A history has one first fork. -/
private theorem fork_split_unique {h h' h₁ h₁' : List Event} {a a' : Except Errno ForkResult}
    (hno : ∀ e ∈ h, e.call ≠ .fork) (hno' : ∀ e ∈ h', e.call ≠ .fork)
    (heq : h ++ (⟨.fork, a⟩ : Event) :: h₁ = h' ++ (⟨.fork, a'⟩ : Event) :: h₁') :
    h = h' ∧ a = a' ∧ h₁ = h₁' := by
  -- What is before the fork is what `takeWhile` leaves of the history
  have htake : ∀ {l l₁ : List Event} {b}, (∀ e ∈ l, e.call ≠ .fork) →
      (l ++ (⟨.fork, b⟩ : Event) :: l₁).takeWhile (fun e => decide (e.call ≠ .fork)) = l := by
    intro l l₁ b hl
    rw [List.takeWhile_append_of_pos fun e he => decide_eq_true (hl e he),
      List.takeWhile_cons_of_neg (by simp), List.append_nil]
  have hsame := congrArg (List.takeWhile fun e => decide (e.call ≠ .fork)) heq
  rw [htake hno, htake hno'] at hsame
  subst hsame
  cases List.append_cancel_left heq
  exact ⟨rfl, rfl, rfl⟩

/-- Before the fork the history has no fork. -/
theorem Pair.no_fork (hp : req.Pair root s₀ cfg child h₀ h₁ h₂ p₁ p₂) :
    ∀ e ∈ h₀, e.call ≠ .fork := fun e he =>
  Call.ne_fork_of_free (Call.free_of_uses req.prologue_uses (by decide) hp.prologue e he)

/-- Two processes with the histories of a pair are the pair. -/
theorem pair_of_procs (hr : linux.Reachable root req.wrap s₀ cfg)
    (hroot : cfg.procs root = some ⟨h₀ ++ ⟨.fork, .ok (.parent child)⟩ :: h₁, p₁⟩)
    (hchild : cfg.procs child = some ⟨h₀ ++ ⟨.fork, .ok .child⟩ :: h₂, p₂⟩)
    (hno : ∀ e ∈ h₀, e.call ≠ .fork) : req.Pair root s₀ cfg child h₀ h₁ h₂ p₁ p₂ := by
  rcases wrap_cases hr with ⟨h, q, hsolo⟩ | ⟨child', h₀', h₁', h₂', p₁', p₂', hp⟩
  · -- A single process has not forked
    cases hsolo.proc.symm.trans hroot
    exact nomatch hsolo.noSpawn ⟨.fork, .ok (.parent child)⟩ (by simp)
  · -- The pair of `wrap_cases` has the same histories, and so the same parts
    have hno' := hp.no_fork
    have hroot' := Option.some.inj (hp.rootProc.symm.trans hroot)
    injection hroot' with hh hq
    obtain ⟨rfl, ha, rfl⟩ := fork_split_unique hno' hno hh
    cases ha
    have hchild' := Option.some.inj (hp.childProc.symm.trans hchild)
    injection hchild' with hh' hq'
    obtain ⟨-, -, rfl⟩ := fork_split_unique hno' hno hh'
    rw [← hq, ← hq']
    exact hp

/-- The history of the supervisor, and of the child, right after the fork. -/
abbrev rootStart (h₀ : List Event) (child : Int) : List Event :=
  h₀ ++ [⟨.fork, .ok (.parent child)⟩]

/-- What the child has behind it when it starts: the prologue, and the fork that made it. -/
abbrev childStart (h₀ : List Event) : List Event := h₀ ++ [⟨.fork, .ok .child⟩]

/-- If the prologue ends well and the fork is answered with a child, the pair starts. -/
theorem pair_starts {child : Int} (s₀ : World) (hpro : req.prologue.Runs h₀ (.ok ()))
    (hf : Follows ω [] h₀) (hfork : ω h₀ .fork = Except.ok (ForkResult.parent child))
    (hne : child ≠ root) :
    ∃ cfg, (linux.under ω).Reachable root req.wrap s₀ cfg ∧
      req.Pair root s₀ cfg child h₀ [] [] (req.supervise child) req.childMain := by
  have huses := Call.free_of_uses req.prologue_uses (by decide) hpro
  have hno : ∀ e ∈ h₀, e.call ≠ .fork := fun e he => Call.ne_fork_of_free (huses e he)
  -- The prologue takes only answers that the kernel never refuses
  have hl : (linux.under ω).Lawful s₀ root h₀ := fun h₁ e h₂ heq =>
    ⟨World.allows_of_free _ _ _ (huses e (by simp [heq])), hf h₁ e h₂ heq⟩
  obtain ⟨cfg, hr, hroot, hchild⟩ := exists_forked (fun _ _ => rfl) hpro hl
    ⟨trivial, hfork.symm⟩ hno hne req.afterFork
  exact ⟨cfg, hr, pair_of_procs (linux_of_under hr) hroot hchild hno⟩

/-- The steps of the kernel that gives the answers `ω`. -/
abbrev Steps (ω : calls.Answers) (cfg cfg' : Config calls Int World Err Unit) : Prop :=
  Relation.ReflTransGen (linux.under ω).Step cfg cfg'

/-- A process makes the calls that `ω` answers and the kernel allows. -/
private theorem process_steps {pid : Int} {hx : List Event} {p : Sys Unit}
    (hproc : cfg.procs pid = some ⟨hx, p⟩) (hq : p.Reaches h q) (hf : Follows ω hx h)
    (hallows : ∀ h₃ e h₄, h = h₃ ++ e :: h₄ →
      (linux.after cfg.state pid h₃).allows pid e.call e.answer ∧ e.call ≠ .fork) :
    Steps ω cfg (cfg.advance (linux.under ω) pid hx h q) := by
  refine (linux.under ω).steps_of_reaches hproc hq (fun h₃ e h₄ heq =>
    ⟨(hallows h₃ e h₄ heq).1, hf h₃ e h₄ heq⟩) fun e he => ?_
  obtain ⟨h₃, h₄, rfl⟩ := List.append_of_mem he
  exact spawn_none _ (hallows h₃ e h₄ rfl).2

/-- The child goes on alone while the other process waits. -/
theorem Pair.child_steps (hp : req.Pair root s₀ cfg child h₀ h₁ h₂ p₁ p₂)
    (hr : (linux.under ω).Reachable root req.wrap s₀ cfg) (hq : p₂.Reaches h q)
    (hf : Follows ω (childStart h₀ ++ h₂) h)
    (hallows : ∀ h₃ e h₄, h = h₃ ++ e :: h₄ →
      (linux.after cfg.state child h₃).allows child e.call e.answer ∧ e.call ≠ .fork) :
    ∃ cfg', Steps ω cfg cfg' ∧ req.Pair root s₀ cfg' child h₀ h₁ (h₂ ++ h) p₁ q := by
  have hproc := hp.childProc
  rw [← List.singleton_append, ← List.append_assoc] at hproc
  have hsteps := process_steps hproc hq hf hallows
  refine ⟨_, hsteps, pair_of_procs (linux_of_under (hr.trans hsteps)) ?_ ?_ hp.no_fork⟩
  · simp [Config.advance, Function.update_of_ne hp.ne.symm, hp.rootProc]
  · simp [Config.advance]

/-- The first process goes on alone while the child waits. -/
theorem Pair.root_steps (hp : req.Pair root s₀ cfg child h₀ h₁ h₂ p₁ p₂)
    (hr : (linux.under ω).Reachable root req.wrap s₀ cfg) (hq : p₁.Reaches h q)
    (hf : Follows ω (rootStart h₀ child ++ h₁) h)
    (hallows : ∀ h₃ e h₄, h = h₃ ++ e :: h₄ →
      (linux.after cfg.state root h₃).allows root e.call e.answer ∧ e.call ≠ .fork) :
    ∃ cfg', Steps ω cfg cfg' ∧ req.Pair root s₀ cfg' child h₀ (h₁ ++ h) h₂ q p₂ := by
  have hproc := hp.rootProc
  rw [← List.singleton_append, ← List.append_assoc] at hproc
  have hsteps := process_steps hproc hq hf hallows
  refine ⟨_, hsteps, pair_of_procs (linux_of_under (hr.trans hsteps)) ?_ ?_ hp.no_fork⟩
  · simp [Config.advance]
  · simp [Config.advance, Function.update_of_ne hp.ne, hp.childProc]

/-- The answers in the histories of a pair that runs under `ω` are those of `ω`. -/
theorem Pair.follows (hp : req.Pair root s₀ cfg child h₀ h₁ h₂ p₁ p₂)
    (hr : (linux.under ω).Reachable root req.wrap s₀ cfg) :
    Follows ω [] h₀ ∧ ω h₀ .fork = Except.ok (ForkResult.parent child) ∧
      Follows ω (rootStart h₀ child) h₁ ∧ Follows ω (childStart h₀) h₂ := by
  -- only a fork is answered otherwise than by `ω`
  have hne : ∀ {pid : Int} {h : List Event} {q : Sys Unit}, cfg.procs pid = some ⟨h, q⟩ →
      ∀ (h₃ : List Event) (e : Event) (h₄ : List Event), h = h₃ ++ e :: h₄ → e.call ≠ .fork →
      e.answer = ω h₃ e.call := by
    intro pid h q hproc h₃ e h₄ heq hfork
    -- A call that forks nothing is answered by `ω`
    rcases hr.follows hproc heq with hans | ⟨r, hs⟩
    · exact hans
    · exact nomatch (spawn_none (ω h₃ e.call) hfork).symm.trans hs
  have hkind : ∀ {α : Type} {p q : Sys α} {h : List Event} {ks : List Call.Kind},
      p.Uses (Call.within ks) → .fork ∉ ks → p.Reaches h q → ∀ e ∈ h, e.call ≠ .fork := by
    intro α p q h ks hu hks hreach e he heq
    have hin : e.call.kind ∈ ks := hu.mem (e := e) hreach he
    rw [heq] at hin
    exact hks hin
  have h₁no := hkind (req.supervise_uses child) (by decide) hp.rootReaches
  have h₂no := hkind req.childMain_uses (by decide) hp.childReaches
  -- The prologue, the fork, and each process since
  refine ⟨fun h₃ e h₄ heq => ?_, ?_, fun h₃ e h₄ heq => ?_, fun h₃ e h₄ heq => ?_⟩
  · exact hne hp.rootProc h₃ e (h₄ ++ ⟨.fork, .ok (.parent child)⟩ :: h₁) (by rw [heq]; simp)
      (hp.no_fork e (by simp [heq]))
  · rcases hr.follows hp.rootProc rfl with hans | ⟨r, hs⟩
    · exact hans.symm
    · exact nomatch (spawn_some hs).2
  · exact hne hp.rootProc _ e h₄ (by rw [heq]; simp) (h₁no e (by simp [heq]))
  · exact hne hp.childProc _ e h₄ (by rw [heq]; simp) (h₂no e (by simp [heq]))

/-- Free calls are always allowed. -/
theorem allows_of_frees {s : World} {pid : Int} (hfree : ∀ e ∈ h, e.call.free = true) :
    ∀ h₃ e h₄, h = h₃ ++ e :: h₄ →
      (linux.after s pid h₃).allows pid e.call e.answer ∧ e.call ≠ .fork := by
  rintro h₃ e h₄ rfl
  have he := hfree e (by simp)
  exact ⟨World.allows_of_free _ _ _ he, Call.ne_fork_of_free he⟩

/-- A single call that the kernel allows is a history that it allows. -/
theorem allows_of_single {s : World} {pid : Int} {e : Event}
    (ha : s.allows pid e.call e.answer) (hne : e.call ≠ .fork) :
    ∀ h₃ e' h₄, [e] = h₃ ++ e' :: h₄ →
      (linux.after s pid h₃).allows pid e'.call e'.answer ∧ e'.call ≠ .fork := by
  intro h₃ e' h₄ heq
  cases h₃ with
  | nil =>
    cases heq
    exact ⟨ha, hne⟩
  | cons e₃ h₃ => simp at heq

/-! ## Free parts -/

/-- A program whose calls are of other kinds makes free calls only. -/
private theorem uses_free {α : Type} {p : Sys α} {ks : List Call.Kind}
    (hp : p.Uses (Call.within ks)) (hks : ∀ k ∈ ks, k ∉ [.efd, .fork, .oom]) :
    p.Uses fun (c : Call) => c.free = true :=
  hp.mono fun _ hc => Call.free_of_kind (hks _ hc)

/-- Up to its signal the child makes free calls only. -/
theorem childSignal_free (req : CreateRequest) : req.childSignal.Uses fun (c : Call) => c.free = true :=
  .bind (uses_free (orExit_uses resetChildSignalHandlers_uses) (by decide)) fun _ =>
    .bind (uses_free req.stage_uses (by decide)) fun _ =>
    .bind (Uses.sys (I := calls) rfl) fun _ => .bind (.check _ _) fun _ => .pure _

/-- The configuration of the child makes free calls only. -/
theorem configure_free (req : CreateRequest) (child : Int) :
    (req.configure child).Uses fun (c : Call) => c.free = true :=
  .bind (.when fun _ => uses_free (req.prepareUserns_uses _) (by decide)) fun _ =>
    .bind (Uses.sys (I := calls) rfl) fun _ => .bind (.check _ _) fun _ => .pure _

/-! ## The steps of the handshake -/

section

variable (ω : calls.Answers) (req : CreateRequest) (root child : Int) (h₀ : List Event)

/-- The prologue ends well, with the history `h₀`, and the fork is answered with the child. -/
def Forks : Prop :=
  req.prologue.Runs h₀ (.ok ()) ∧ Follows ω [] h₀ ∧
    ω h₀ .fork = Except.ok (ForkResult.parent child) ∧ child ≠ root

/-- The child's steps up to its signal succeed: the reset of its handlers, in two-stage mode
    `pivot_fs` and `unshare`, and the write. -/
def Signals : Prop := req.childSignal.Succeeds ω (childStart h₀)

/-- The supervisor's history when it waits for the signal, and when it has read it. -/
abbrev rootWaiting : List Event := rootStart h₀ child ++ [⟨.storeChildPid child, ()⟩]

/-- What the first process has behind it once it has read the child's signal. -/
abbrev rootSignalled : List Event := rootWaiting child h₀ ++ [⟨.efdRead .parent, .ok 1⟩]

/-- The supervisor's read itself does not fail. -/
def SignalReadable : Prop :=
  ω (rootWaiting child h₀) (.efdRead .parent) = Except.ok 1

/-- The supervisor's steps after the signal succeed: `prepare_userns`, and the write. -/
def Configures : Prop := (req.configure child).Succeeds ω (rootSignalled child h₀)

/-- The child's history when it waits for its release. -/
def childWaiting : List Event :=
  childStart h₀ ++ (req.childSignal.eval ω (childStart h₀)).1

/-- The child's history when it has read its release. -/
abbrev childReleased : List Event := childWaiting ω req h₀ ++ [⟨.efdRead .child, .ok 1⟩]

/-- The child's read itself does not fail. -/
def ReleaseReadable : Prop :=
  ω (childWaiting ω req h₀) (.efdRead .child) = Except.ok 1

end

/-! ## Progress of the handshake

As long as its steps succeed, there is a run that makes them. -/

/-- A count that has been posted is there to be read. -/
theorem posted_pos {x : Efd} {v : Nat} (hv : 0 < v)
    (hm : (⟨.efdWrite x v, .ok ()⟩ : Event) ∈ h) : 0 < posted x h := by
  obtain ⟨h₁, h₂, rfl⟩ := List.append_of_mem hm
  simp only [posted_append, posted_cons, posts, if_true]
  omega

/-- The child has posted its signal. -/
theorem childSignal_posted (hr : req.childSignal.Runs h (.ok ())) : 0 < posted .parent h := by
  obtain ⟨h₁, h₂, rfl, -⟩ := childSignal_runs hr
  exact posted_pos Nat.two_pos (by simp)

/-- Up to its signal the child reads nothing. -/
theorem childSignal_taken {p : Sys Unit} (hr : req.childSignal.Reaches h p) (x : Efd) :
    taken x h = 0 := by
  refine taken_eq_zero fun e he heq => ?_
  have hfree := req.childSignal_free.mem (e := e) hr he
  rw [heq] at hfree
  exact nomatch hfree

/-- The supervisor before its read, where it waits for the child's signal. -/
theorem supervise_waits (req : CreateRequest) (child : Int) :
    (req.supervise child).Reaches [⟨.storeChildPid child, ()⟩]
      (.call (I := calls) (.efdRead .parent) fun r => check r >>= fun _ =>
        req.configure child >>= fun _ => waitForPid child >>= fun exitcode =>
          reapChildren >>= fun _ => Prog.halt exitcode) := .call (.refl _)

/-- The child before its read, where it waits for its release. -/
theorem childMain_waits (hs : Signals ω req h₀) :
    req.childMain.Reaches (req.childSignal.eval ω (childStart h₀)).1
      (.call (I := calls) (.efdRead .child) fun r => check r >>= fun _ => req.childRest) := by
  obtain ⟨⟨⟩, hrun⟩ := hs.runs
  exact reaches_bind.2 (.inr ⟨(), _, [], hrun, .refl _, (List.append_nil _).symm⟩)

/-- Both processes can come to their reads. -/
theorem pair_waits (s₀ : World) (hf : Forks ω req root child h₀) (hs : Signals ω req h₀) :
    ∃ cfg, (linux.under ω).Reachable root req.wrap s₀ cfg ∧
      req.Pair root s₀ cfg child h₀ [⟨.storeChildPid child, ()⟩]
        (req.childSignal.eval ω (childStart h₀)).1
        (.call (I := calls) (.efdRead .parent) fun r => check r >>= fun _ =>
          req.configure child >>= fun _ => waitForPid child >>= fun exitcode =>
            reapChildren >>= fun _ => Prog.halt exitcode)
        (.call (I := calls) (.efdRead .child) fun r => check r >>= fun _ => req.childRest) := by
  -- The child goes up to its signal, and then the supervisor up to its read
  obtain ⟨hpro, hfol, hfork, hne⟩ := hf
  obtain ⟨cfg₀, hr₀, hp₀⟩ := pair_starts s₀ hpro hfol hfork hne
  obtain ⟨cfg₁, hs₁, hp₁⟩ := hp₀.child_steps hr₀ (childMain_waits hs)
    (by simpa using eval_follows ω req.childSignal (childStart h₀))
    (allows_of_frees fun e =>
      req.childSignal_free.mem (e := e) (req.childSignal.eval_runs ω (childStart h₀)))
  obtain ⟨cfg₂, hs₂, hp₂⟩ := hp₁.root_steps (hr₀.trans hs₁) (req.supervise_waits child)
    (follows_cons.2 ⟨rfl, follows_nil _⟩) (allows_of_frees (by simp [Call.free]))
  exact ⟨cfg₂, (hr₀.trans hs₁).trans hs₂, hp₂⟩

/-- Once the child has signalled, the supervisor can come to configure it. -/
theorem pair_configures (s₀ : World) (hf : Forks ω req root child h₀) (hs : Signals ω req h₀)
    (hread : SignalReadable ω child h₀) :
    ∃ cfg, (linux.under ω).Reachable root req.wrap s₀ cfg ∧
      req.Pair root s₀ cfg child h₀
        [⟨.storeChildPid child, ()⟩, ⟨.efdRead .parent, .ok 1⟩]
        (req.childSignal.eval ω (childStart h₀)).1
        (req.configure child >>= fun _ => waitForPid child >>= fun exitcode =>
          reapChildren >>= fun _ => Prog.halt exitcode)
        (.call (I := calls) (.efdRead .child) fun r => check r >>= fun _ => req.childRest) := by
  obtain ⟨cfg, hr, hp⟩ := pair_waits s₀ hf hs
  obtain ⟨⟨⟩, hrun⟩ := hs.runs
  -- The signal is there to be read
  have hpos := childSignal_posted hrun
  have hallows : cfg.state.allows root (.efdRead .parent) (.ok 1) := hp.allows_read root (by
    rw [hp.taken_parent]
    simp only [taken_cons, takes, taken_nil]
    omega)
  obtain ⟨cfg', hs', hp'⟩ := hp.root_steps hr (h := [⟨.efdRead .parent, .ok 1⟩]) (.call (.refl _))
    (follows_cons.2 ⟨hread.symm, follows_nil _⟩) (allows_of_single hallows (by simp))
  exact ⟨cfg', hr.trans hs', hp'⟩

/-- Once the supervisor has configured it, the child can come to its last part. -/
theorem pair_releases (s₀ : World) (hf : Forks ω req root child h₀) (hs : Signals ω req h₀)
    (hread : SignalReadable ω child h₀) (hc : Configures ω req child h₀)
    (hrel : ReleaseReadable ω req h₀) :
    ∃ cfg h₁ p₁, (linux.under ω).Reachable root req.wrap s₀ cfg ∧
      req.Pair root s₀ cfg child h₀ h₁
        ((req.childSignal.eval ω (childStart h₀)).1 ++ [⟨.efdRead .child, .ok 1⟩]) p₁
        req.childRest := by
  obtain ⟨cfg, hr, hp⟩ := pair_configures s₀ hf hs hread
  obtain ⟨⟨⟩, hrun⟩ := hc.runs
  -- The supervisor runs `configure`, which posts the release
  have hconf := reaches_bind (f := fun _ : Unit => waitForPid child >>= fun exitcode =>
    reapChildren >>= fun _ => (Prog.halt exitcode : Sys Unit)).2
      (.inr ⟨(), _, [], hrun, .refl _, (List.append_nil _).symm⟩)
  obtain ⟨cfg₁, hs₁, hp₁⟩ := hp.root_steps hr hconf
    (by simpa using eval_follows ω (req.configure child) (rootSignalled child h₀))
    (allows_of_frees fun e => (req.configure_free child).mem (e := e) hrun)
  obtain ⟨⟨⟩, hsig⟩ := hs.runs
  -- So the child's read can be answered
  have hpos := posted_pos Nat.one_pos (configure_releases hrun)
  have hallows : cfg₁.state.allows child (.efdRead .child) (.ok 1) := hp₁.allows_read child (by
    rw [hp₁.taken_child, childSignal_taken hsig, posted_append]
    omega)
  obtain ⟨cfg₂, hs₂, hp₂⟩ := hp₁.child_steps (hr.trans hs₁) (h := [⟨.efdRead .child, .ok 1⟩])
    (.call (.refl _)) (follows_cons.2 ⟨hrel.symm, follows_nil _⟩) (allows_of_single hallows nofun)
  exact ⟨cfg₂, _, _, (hr.trans hs₁).trans hs₂, hp₂⟩

/-- The answers of the prologue's own run start it. -/
theorem forks_of_succeeds (req : CreateRequest) (ω : calls.Answers) (root child : Int)
    (hs : req.prologue.Succeeds ω [])
    (hfork : ω (req.prologue.eval ω []).1 .fork = Except.ok (ForkResult.parent child))
    (hne : child ≠ root) : Forks ω req root child (req.prologue.eval ω []).1 := by
  obtain ⟨⟨⟩, hrun⟩ := hs.runs
  exact ⟨hrun, eval_follows ω _ _, hfork, hne⟩

/-- If the handshake's steps succeed, the supervisor can come to each call of `configure`. -/
theorem configure_comes_to (s₀ : World) (hf : Forks ω req root child h₀) (hs : Signals ω req h₀)
    (hread : SignalReadable ω child h₀) {c : Call}
    (hc : c ∈ ((req.configure child).eval ω (rootSignalled child h₀)).1.map Interface.Event.call) :
    ∃ cfg h k, (linux.under ω).Reachable root req.wrap s₀ cfg ∧
      cfg.procs root = some ⟨h, .call (I := calls) c k⟩ := by
  obtain ⟨cfg, hr, hp⟩ := pair_configures s₀ hf hs hread
  obtain ⟨e, he, rfl⟩ := List.mem_map.1 hc
  have hrun := (req.configure child).eval_runs ω (rootSignalled child h₀)
  have hfol := eval_follows ω (req.configure child) (rootSignalled child h₀)
  -- The configuration is free, so the supervisor goes through it alone
  have hfree := fun e => (req.configure_free child).mem (e := e) hrun
  obtain ⟨h₃, h₄, heq⟩ := List.append_of_mem he
  rw [heq] at hrun hfol hfree
  obtain ⟨k, hat⟩ := at_bind.2 (.inl (Reaches.at_of_split hrun))
  obtain ⟨cfg', hs', hp'⟩ := hp.root_steps hr hat (by simpa using (follows_append.1 hfol).1)
    (allows_of_frees fun e he => hfree e (List.mem_append_left _ he))
  exact ⟨cfg', _, k, hr.trans hs', hp'.rootProc⟩

/-- The child's own history when it has read its release. -/
abbrev childOwn (ω : calls.Answers) (req : CreateRequest) (h₀ : List Event) : List Event :=
  (req.childSignal.eval ω (childStart h₀)).1 ++ [⟨.efdRead .child, .ok 1⟩]

/-- If the handshake's steps succeed, the child can come to each call of its last part, as far
    as the kernel allows the answers before it. -/
theorem childRest_comes_to (s₀ : World) (hf : Forks ω req root child h₀) (hs : Signals ω req h₀)
    (hread : SignalReadable ω child h₀) (hconf : Configures ω req child h₀)
    (hrel : ReleaseReadable ω req h₀)
    (hallows : ∀ (s : World) h₁ e h₂,
      (req.childRest.eval ω (childReleased ω req h₀)).1 = h₁ ++ e :: h₂ →
      s.ns = ((s₀.ns.after root h₀).fork root child).after child (childOwn ω req h₀ ++ h₁) →
      s.allows child e.call e.answer ∧ e.call ≠ .fork)
    {c : Call}
    (hc : c ∈ (req.childRest.eval ω (childReleased ω req h₀)).1.map Interface.Event.call) :
    ∃ cfg h k, (linux.under ω).Reachable root req.wrap s₀ cfg ∧
      cfg.procs child = some ⟨h, .call (I := calls) c k⟩ := by
  obtain ⟨cfg, h₁, p₁, hr, hp⟩ := pair_releases s₀ hf hs hread hconf hrel
  have hrun := req.childRest.eval_runs ω (childReleased ω req h₀)
  have hfol := eval_follows ω req.childRest (childReleased ω req h₀)
  -- The run of the last part is cut where the call is made
  obtain ⟨e, he, rfl⟩ := List.mem_map.1 hc
  obtain ⟨h₃, h₄, heq⟩ := List.append_of_mem he
  rw [heq] at hrun hfol
  obtain ⟨k, hat⟩ := Reaches.at_of_split hrun
  obtain ⟨cfg', hs', hp'⟩ := hp.child_steps hr hat
    (by simpa [childReleased, childWaiting] using (follows_append.1 hfol).1)
    fun h₅ e' h₆ heq' => hallows _ h₅ e' (h₆ ++ e :: h₄) (by rw [heq, heq']; simp)
      (by rw [linux_after_ns, hp.ns, ← NsState.after_append])
  exact ⟨cfg', _, k, hr.trans hs', hp'.childProc⟩

/-- The kernel allows any answer to free calls. -/
theorem childRest_allows (hfree :
      ∀ e ∈ (req.childRest.eval ω (childReleased ω req h₀)).1, e.call.free = true)
    (s : World) (h₁ : List Event) (e : Event) (h₂ : List Event)
    (heq : (req.childRest.eval ω (childReleased ω req h₀)).1 = h₁ ++ e :: h₂) :
    s.allows child e.call e.answer ∧ e.call ≠ .fork := by
  have he := hfree e (by simp [heq])
  exact ⟨World.allows_of_free _ _ _ he, Call.ne_fork_of_free he⟩

/-- Under `ω` every step of the handshake succeeds, and the child then makes the call `c`, after
    calls that may be answered at any time. -/
def comesTo (ω : calls.Answers) (req : CreateRequest) (child : Int) (c : Call) : Bool :=
  let prologue := req.prologue.eval ω []
  let rest := req.childRest.eval ω (childReleased ω req prologue.1)
  prologue.2 = .ok () ∧ ω prologue.1 .fork = Except.ok (ForkResult.parent child) ∧
    (req.childSignal.eval ω (childStart prologue.1)).2 = .ok () ∧
    ω (rootWaiting child prologue.1) (.efdRead .parent) = Except.ok 1 ∧
    ((req.configure child).eval ω (rootSignalled child prologue.1)).2 = .ok () ∧
    ω (childWaiting ω req prologue.1) (.efdRead .child) = Except.ok 1 ∧
    rest.1.all (·.call.free) ∧ c ∈ rest.1.map Interface.Event.call

/-- If the schedule comes to a call of the child, some interleaving does. -/
theorem comes_to_of_comesTo (ω : calls.Answers) (req : CreateRequest) (root child : Int)
    (s₀ : World) (c : Call) (hne : child ≠ root) (hc : comesTo ω req child c = true) :
    ∃ cfg h k, (linux.under ω).Reachable root req.wrap s₀ cfg ∧
      cfg.procs child = some ⟨h, .call (I := calls) c k⟩ := by
  obtain ⟨hpro, hfork, hsig, hread, hconf, hrel, hfree, hmem⟩ := of_decide_eq_true hc
  rw [List.all_eq_true] at hfree
  exact childRest_comes_to s₀ (forks_of_succeeds req ω root child ⟨(), hpro⟩ hfork hne) ⟨(), hsig⟩
    hread ⟨(), hconf⟩ hrel (fun s h₁ e h₂ heq _ => childRest_allows hfree s h₁ e h₂ heq) hmem

end CreateRequest

end Styrolite
