import Styrolite.Spec.Signals

/-!
# Forwarded signals

A signal that arrives at the supervisor is to reach the workload, and none is to
reach another process. Two windows are open while the `wrap` starts: until the
supervisor has stored its child's process id, its handler returns at once, and so
does the child's copy of the handler until the child has set it back. A third is
open at the end: `CHILD_PID` stays when the child has been waited for, and its
process id may then be another's.

## Key results

- `arrive_lost_iff`, `deliver_lost_iff`: the signals that get lost
- `wrap_loses_none_iff`: when a run loses none
- `arrive_strays_iff`: the signals that are sent to another process
- `wrap_strays_none_iff`: when a run sends none to one
-/

namespace Styrolite

open Prog Kernel

variable {r : Request} {root : Int} {s₀ : World} {t : List (Signalled × Happening)} {s : Signalled}

/-! ## Handlers -/

/-- What a supervisor does that has handlers for its signals. -/
theorem reaction_armed {h : List Event} {sig : Signal} (hsig : sig ∈ forwardedSignals)
    (harmed : Armed h) : reaction h sig = forwardSignal (childPidOf h) sig := if_pos (harmed sig hsig)

theorem forwardSignal_zero (sig : Signal) : forwardSignal 0 sig = none := rfl

theorem forwardSignal_pos {pid : Int} (hpos : 0 < pid) (sig : Signal) :
    forwardSignal pid sig = some (pid, sig) := if_neg (by omega)

/-! ## A signal in time -/

/-- The answers of `succeeding` give a child a positive process id. -/
theorem linuxPids_of_succeeding {root : Int} {p : Sys Unit} {s₀ : World}
    {cfg : Config calls Int World Err Unit}
    (hr : (linux.under succeeding).Reachable root p s₀ cfg) : linuxPids.Reachable root p s₀ cfg := by
  refine linuxPids_of_under (fun h q heq => ?_) hr
  cases heq
  decide

theorem simple_forks : CreateRequest.Forks succeeding (.simple []) 1 2
    ((CreateRequest.simple []).prologue.eval succeeding []).1 :=
  CreateRequest.forks_of_succeeds _ succeeding 1 2 ⟨(), by decide⟩ rfl (by decide)

theorem simple_signals : CreateRequest.Signals succeeding (.simple [])
    ((CreateRequest.simple []).prologue.eval succeeding []).1 := ⟨(), by decide⟩

/-- Once supervisor and child wait for each other a signal reaches the child, which has no
    handler for it. -/
theorem exists_signal_in_time : ∃ t s, SignalRun (.create (.simple [])) 1 .fresh t s ∧
    (∃ x ∈ t, x.2 = .arrive .SIGTERM) ∧ (∃ x ∈ t, x.2 = .deliver 2 .SIGTERM) ∧
    ∀ x ∈ t, x.2 = .call ∨
      (∃ h q, x.1.cfg.procs 1 = some ⟨h, q⟩ ∧ x.2 = .arrive .SIGTERM ∧ Stored h ∧ ¬ Reaped h) ∨
      ∃ h q, x.1.cfg.procs 2 = some ⟨h, q⟩ ∧ x.2 = .deliver 2 .SIGTERM ∧
        (⟨.signal .SIGTERM .sigDfl, .ok ()⟩ : Event) ∈ h := by
  have hsig : Signal.SIGTERM ∈ forwardedSignals := by decide
  obtain ⟨cfg, hr, hp⟩ := CreateRequest.pair_waits .fresh simple_forks simple_signals
  have hd := hp.duo (by decide)
  obtain ⟨t, ht, hcalls⟩ := SignalRun.of_reachable (r := .create (.simple []))
    (linuxPids_of_succeeding hr)
  -- the supervisor sends the signal on
  have hstored : childPidOf (((CreateRequest.simple []).prologue.eval succeeding []).1 ++
      ⟨.fork, .ok (.parent 2)⟩ :: [⟨.storeChildPid 2, ()⟩]) = 2 := by
    rw [List.append_cons]
    exact childPidOf_append_store fun e he => by cases he
  have hsent := reaction_armed hsig hd.armed
  rw [hstored, forwardSignal_pos (by decide)] at hsent
  have harrive := SignalStep.arrive (s := ⟨cfg, fun _ => []⟩) hsig hd.rootProc hd.armed
  rw [hsent] at harrive
  let sent := Signalled.send ⟨cfg, fun _ => []⟩ (some (2, .SIGTERM))
  have hpending : .SIGTERM ∈ sent.pending 2 := by simp [sent, Signalled.send]
  have hother : (2 : Int) ≠ 1 := by decide
  have hdeliver := SignalStep.deliver (s := sent) hsig hother hd.childProc hpending
  -- the child has set its handlers back
  obtain ⟨_, hsignal⟩ := simple_signals.runs
  obtain ⟨h₁, h₂, heq, hreset, -⟩ := CreateRequest.childSignal_runs hsignal
  have hset := resetChildSignalHandlers_sets (orExit_ranIn hreset.ranIn) hsig
  -- Nobody has been waited for
  have hreaped : ¬ Reaped (((CreateRequest.simple []).prologue.eval succeeding []).1 ++
      ⟨.fork, .ok (.parent 2)⟩ :: [⟨.storeChildPid 2, ()⟩]) := by
    rintro ⟨child, st, -, hmem⟩
    rcases List.mem_append.1 hmem with hmem | hmem
    · exact ((Request.create (.simple [])).prologue_kinds.mem hd.prologue hmem).2 rfl
    · simp at hmem
  refine ⟨_, _, (ht.step harrive).step hdeliver, ⟨(⟨cfg, fun _ => []⟩, .arrive .SIGTERM), by simp, rfl⟩,
    ⟨(sent, .deliver 2 .SIGTERM), by simp [sent], rfl⟩, ?_⟩
  intro x hx
  rw [List.append_assoc, List.mem_append] at hx
  -- Calls, the arrival and the delivery are all that happens
  rcases hx with hx | hx
  · exact .inl (hcalls x hx)
  · rcases List.mem_cons.1 hx with rfl | hx
    · exact .inr (.inl ⟨_, _, hd.rootProc, rfl, ⟨2, (), by simp⟩, hreaped⟩)
    · obtain rfl := List.mem_singleton.1 hx
      refine .inr (.inr ⟨_, _, hd.childProc, rfl, ?_⟩)
      rw [heq]
      exact List.mem_append_right _ (List.mem_cons_of_mem _ (List.mem_append_left _ hset))

/-! ## Lost signals -/

/-- The child of the supervisor with the history `h` is over: it has been waited for, or its part
    of the `wrap` has failed. -/
def Signalled.Ended (s : Signalled) (h : List Event) : Prop :=
  Reaped h ∨ ∃ child h' x, forkedPid h = some child ∧ s.cfg.procs child = some ⟨h', .done x⟩ ∧
    x ≠ .ok ()

/-- The signal gets lost: the supervisor does not send it to its child, although that is not over,
    or the child's copy of the handler takes it and returns. -/
def Lost (root : Int) (s : Signalled) : Happening → Prop
  | .call => False
  | .arrive sig => ∃ h q, s.cfg.procs root = some ⟨h, q⟩ ∧ ¬ s.Ended h ∧
      ∀ child, forkedPid h = some child → reaction h sig ≠ some (child, sig)
  | .deliver pid sig => ∃ h q, s.cfg.procs pid = some ⟨h, q⟩ ∧
      handlerOf sig h = .forwardSignal ∧ reaction h sig = none

/-- The signal comes late enough: to a supervisor that has stored its child's process id, or to a
    child that has set the signal's handler back. (What arrives when the child is over need not.) -/
def InTime (root : Int) (s : Signalled) : Happening → Prop
  | .call => True
  | .arrive _ => ∀ h q, s.cfg.procs root = some ⟨h, q⟩ → s.Ended h ∨ Stored h
  | .deliver pid sig => ∀ h q, s.cfg.procs pid = some ⟨h, q⟩ →
      (⟨.signal sig .sigDfl, .ok ()⟩ : Event) ∈ h

theorem arrive_lost_iff (hr : linuxPids.Reachable root r.wrap s₀ s.cfg) {h : List Event}
    {q : Sys Unit} {sig : Signal} (hsig : sig ∈ forwardedSignals)
    (hproc : s.cfg.procs root = some ⟨h, q⟩) (harmed : Armed h) :
    Lost root s (.arrive sig) ↔ ¬ InTime root s (.arrive sig) := by
  -- There is one supervisor, so its history is the one in question
  have hlost : Lost root s (.arrive sig) ↔ ¬ s.Ended h ∧
      ∀ child, forkedPid h = some child → reaction h sig ≠ some (child, sig) := by
    constructor
    · rintro ⟨h', q', hproc', hl⟩
      cases hproc.symm.trans hproc'
      exact hl
    · intro hl
      exact ⟨h, q, hproc, hl⟩
  have htime : InTime root s (.arrive sig) ↔ s.Ended h ∨ Stored h := by
    constructor
    · intro ht
      exact ht h q hproc
    · intro ht h' q' hproc'
      cases hproc.symm.trans hproc'
      exact ht
  rw [hlost, htime, not_or, reaction_armed hsig harmed]
  refine and_congr_right fun hended => ?_
  rcases r.root_childPid hr hproc with ⟨hzero, hno, -⟩ | ⟨child, hpos, hfork, hchild, hstored⟩
  · -- No child is known: the handler sends nothing
    rw [hzero, forwardSignal_zero]
    exact iff_of_true (fun _ _ heq => by cases heq) hno
  · -- The child is known: the handler sends the signal to it
    rw [hchild, forwardSignal_pos hpos]
    exact iff_of_false (fun hne => hne child hfork rfl) fun hno => hno hstored

theorem deliver_lost_iff (hr : linuxPids.Reachable root r.wrap s₀ s.cfg) {pid : Int}
    (hne : pid ≠ root) {h : List Event} {q : Sys Unit} {sig : Signal}
    (hsig : sig ∈ forwardedSignals) (hproc : s.cfg.procs pid = some ⟨h, q⟩) :
    Lost root s (.deliver pid sig) ↔ ¬ InTime root s (.deliver pid sig) := by
  obtain ⟨hzero, hhandler⟩ := r.child_handler hr hne hproc hsig
  constructor
  · rintro ⟨h', q', hproc', hforward, -⟩ ht
    cases hproc.symm.trans hproc'
    exact hhandler.1 hforward (ht h q hproc)
  · intro hlate
    have hforward : handlerOf sig h = .forwardSignal := by
      refine hhandler.2 fun hreset => hlate fun h' q' hproc' => ?_
      cases hproc.symm.trans hproc'
      exact hreset
    exact ⟨h, q, hproc, hforward, by rw [reaction, if_pos hforward, hzero, forwardSignal_zero]⟩

/-- In a run of a `wrap` no signal gets lost if and only if each comes in time. -/
theorem wrap_loses_none_iff (ht : SignalRun r root s₀ t s) :
    (∀ x ∈ t, ¬ Lost root x.1 x.2) ↔ ∀ x ∈ t, InTime root x.1 x.2 := by
  refine forall₂_congr fun x hx => ?_
  obtain ⟨hr, s', hstep⟩ := ht.happened hx
  obtain ⟨s₁, y⟩ := x
  cases hstep with
  | call hcall => exact iff_of_true id trivial
  | arrive hsig hproc harmed => rw [arrive_lost_iff hr hsig hproc harmed, not_not]
  | deliver hsig hne hproc hpending => rw [deliver_lost_iff hr hne hsig hproc, not_not]

/-- A signal that comes in time reaches the child. -/
theorem wrap_loses_none_waiting : ∃ t s, SignalRun (.create (.simple [])) 1 .fresh t s ∧
    (∃ x ∈ t, x.2 = .arrive .SIGTERM) ∧ (∃ x ∈ t, x.2 = .deliver 2 .SIGTERM) ∧
    ∀ x ∈ t, ¬ Lost 1 x.1 x.2 := by
  obtain ⟨t, s, ht, harrive, hdeliver, hx⟩ := exists_signal_in_time
  refine ⟨t, s, ht, harrive, hdeliver, (wrap_loses_none_iff ht).2 fun x hmem => ?_⟩
  obtain ⟨s₁, y⟩ := x
  rcases hx _ hmem with heq | ⟨h, q, hproc, heq, hstored, -⟩ | ⟨h, q, hproc, heq, hreset⟩
  · -- A call loses nothing
    cases heq
    trivial
  · -- At its arrival the number is stored
    cases heq
    intro h' q' hproc'
    cases hproc.symm.trans hproc'
    exact .inr hstored
  · -- At its delivery the handlers are set back
    cases heq
    intro h' q' hproc'
    cases hproc.symm.trans hproc'
    exact hreset

/-- A signal that arrives between the fork and the store is lost. -/
theorem wrap_loses_early : ∃ t s, SignalRun (.create (.simple [])) 1 .fresh t s ∧
    ∃ x ∈ t, x.2 = .arrive .SIGTERM ∧ Lost 1 x.1 x.2 := by
  have hsig : Signal.SIGTERM ∈ forwardedSignals := by decide
  obtain ⟨hpro, hfol, hfork, hne⟩ := simple_forks
  obtain ⟨cfg, hr, hp⟩ := CreateRequest.pair_starts .fresh hpro hfol hfork hne
  have hd := hp.duo (by decide)
  have hr' := linuxPids_of_succeeding hr
  obtain ⟨t, ht, -⟩ := SignalRun.of_reachable (r := .create (.simple [])) hr'
  have harrive := SignalStep.arrive (s := ⟨cfg, fun _ => []⟩) hsig hd.rootProc hd.armed
  refine ⟨_, _, ht.step harrive, (⟨cfg, fun _ => []⟩, .arrive .SIGTERM), by simp, rfl, ?_⟩
  obtain ⟨hzero, -, hreaped⟩ := hd.fresh
  refine ⟨_, _, hd.rootProc, ?_, fun child _ hsent => ?_⟩
  · rintro (hover | ⟨child, h', x, hforked, hdone, -⟩)
    · exact hreaped hover
    · -- the child has not yet made a call
      cases hd.forkedPid.symm.trans hforked
      cases hd.childProc.symm.trans hdone
  · rw [reaction_armed hsig hd.armed, hzero, forwardSignal_zero] at hsent
    cases hsent

/-! ## Signals to strangers -/

/-- The signal is sent to a process that need not be the supervisor's child: to another, or to one
    that has been waited for. -/
def Strays (root : Int) (s : Signalled) : Happening → Prop
  | .call => False
  | .arrive sig => ∃ h q pid, s.cfg.procs root = some ⟨h, q⟩ ∧ reaction h sig = some (pid, sig) ∧
      ¬ (forkedPid h = some pid ∧ ¬ Reaped h)
  | .deliver pid sig => ∃ h q, s.cfg.procs pid = some ⟨h, q⟩ ∧ (reaction h sig).isSome

/-- The supervisor has not yet waited for its child. -/
def BeforeReaping (root : Int) (s : Signalled) : Happening → Prop
  | .arrive _ => ∀ h q, s.cfg.procs root = some ⟨h, q⟩ → ¬ Reaped h
  | _ => True

theorem arrive_strays_iff (hr : linuxPids.Reachable root r.wrap s₀ s.cfg) {h : List Event}
    {q : Sys Unit} {sig : Signal} (hsig : sig ∈ forwardedSignals)
    (hproc : s.cfg.procs root = some ⟨h, q⟩) (harmed : Armed h) :
    Strays root s (.arrive sig) ↔ ¬ BeforeReaping root s (.arrive sig) := by
  constructor
  · rintro ⟨h', q', pid, hproc', hsent, hstray⟩ hbefore
    cases hproc.symm.trans hproc'
    rw [reaction_armed hsig harmed] at hsent
    rcases r.root_childPid hr hproc with ⟨hzero, -, -⟩ | ⟨child, hpos, hfork, hchild, -⟩
    · -- Nothing is sent
      rw [hzero, forwardSignal_zero] at hsent
      cases hsent
    · rw [hchild, forwardSignal_pos hpos] at hsent
      cases hsent
      exact hstray ⟨hfork, hbefore h q hproc⟩
  · intro hafter
    -- Once the child has been waited for its number is no longer its own
    have hreaped : Reaped h := by
      by_contra hno
      refine hafter fun h' q' hproc' => ?_
      cases hproc.symm.trans hproc'
      exact hno
    rcases r.root_childPid hr hproc with ⟨-, -, hno⟩ | ⟨child, hpos, hfork, hchild, -⟩
    · exact absurd hreaped hno
    · refine ⟨h, q, child, hproc, ?_, fun hown => hown.2 hreaped⟩
      rw [reaction_armed hsig harmed, hchild, forwardSignal_pos hpos]

/-- The child sends nothing on. -/
theorem deliver_not_strays (hr : linuxPids.Reachable root r.wrap s₀ s.cfg) {pid : Int}
    (hne : pid ≠ root) {sig : Signal} (hsig : sig ∈ forwardedSignals) :
    ¬ Strays root s (.deliver pid sig) := by
  rintro ⟨h, q, hproc, hsent⟩
  obtain ⟨hzero, -⟩ := r.child_handler hr hne hproc hsig
  rw [reaction, hzero, forwardSignal_zero, ite_self] at hsent
  cases hsent

/-- In a run of a `wrap` every signal is sent to the supervisor's own child if and only if none
    arrives once the child has been waited for. -/
theorem wrap_strays_none_iff (ht : SignalRun r root s₀ t s) :
    (∀ x ∈ t, ¬ Strays root x.1 x.2) ↔ ∀ x ∈ t, BeforeReaping root x.1 x.2 := by
  refine forall₂_congr fun x hx => ?_
  obtain ⟨hr, s', hstep⟩ := ht.happened hx
  obtain ⟨s₁, y⟩ := x
  cases hstep with
  | call hcall => exact iff_of_true id trivial
  | arrive hsig hproc harmed => rw [arrive_strays_iff hr hsig hproc harmed, not_not]
  | deliver hsig hne hproc hpending =>
    exact iff_of_true (deliver_not_strays hr hne hsig) trivial

/-- A signal that arrives while the two wait for each other is for the child. -/
theorem wrap_strays_none_waiting : ∃ t s, SignalRun (.create (.simple [])) 1 .fresh t s ∧
    (∃ x ∈ t, x.2 = .arrive .SIGTERM) ∧ ∀ x ∈ t, ¬ Strays 1 x.1 x.2 := by
  obtain ⟨t, s, ht, harrive, -, hx⟩ := exists_signal_in_time
  refine ⟨t, s, ht, harrive, (wrap_strays_none_iff ht).2 fun x hmem => ?_⟩
  obtain ⟨s₁, y⟩ := x
  rcases hx _ hmem with heq | ⟨h, q, hproc, heq, -, hno⟩ | ⟨h, q, hproc, heq, -⟩
  · cases heq
    trivial
  · cases heq
    intro h' q' hproc'
    cases hproc.symm.trans hproc'
    exact hno
  · cases heq
    trivial

/-- A signal that arrives when the child has been waited for is sent to whoever has its
    process id now. -/
theorem wrap_strays_late : ∃ t s, SignalRun (.create (.simple [])) 1 .fresh t s ∧
    ∃ x ∈ t, x.2 = .arrive .SIGTERM ∧ Strays 1 x.1 x.2 := by
  have hsig : Signal.SIGTERM ∈ forwardedSignals := by decide
  obtain ⟨cfg₀, hr₀, hp₀⟩ := CreateRequest.pair_configures .fresh simple_forks simple_signals rfl
  -- The supervisor runs on until the child has been waited for
  have hreach : ∃ q, ((CreateRequest.simple []).configure 2 >>= fun _ => waitForPid 2 >>= fun exitcode =>
      reapChildren >>= fun _ => (Prog.halt exitcode : Sys Unit)).Reaches
      [⟨.efdWrite .child 1, .ok ()⟩, ⟨.waitpid 2, .ok (.exited 2 0)⟩] q :=
    ⟨_, .call (.call (.refl _))⟩
  obtain ⟨q, hq⟩ := hreach
  obtain ⟨cfg, hsteps, hp⟩ := hp₀.root_steps hr₀ hq
    (follows_cons.2 ⟨rfl, follows_cons.2 ⟨rfl, follows_nil _⟩⟩)
    (CreateRequest.allows_of_frees (by simp [Call.free]))
  have hd := hp.duo (by decide)
  obtain ⟨t, ht, -⟩ := SignalRun.of_reachable (r := .create (.simple []))
    (linuxPids_of_succeeding (hr₀.trans hsteps))
  have harrive := SignalStep.arrive (s := ⟨cfg, fun _ => []⟩) hsig hd.rootProc hd.armed
  refine ⟨_, _, ht.step harrive, (⟨cfg, fun _ => []⟩, .arrive .SIGTERM), by simp, rfl, ?_⟩
  -- And it still knows the number, to which the handler sends
  have hstored : childPidOf (((CreateRequest.simple []).prologue.eval succeeding []).1 ++
      ⟨.fork, .ok (.parent 2)⟩ :: ⟨.storeChildPid 2, ()⟩ :: [⟨.efdRead .parent, .ok 1⟩,
        ⟨.efdWrite .child 1, .ok ()⟩, ⟨.waitpid 2, .ok (.exited 2 0)⟩]) = 2 := by
    rw [List.append_cons]
    exact childPidOf_append_store (by simp)
  refine ⟨_, _, 2, hd.rootProc, ?_, fun hown => hown.2 ⟨2, .exited 2 0, hd.forkedPid, by simp⟩⟩
  calc _ = forwardSignal (childPidOf _) .SIGTERM := reaction_armed hsig hd.armed
    _ = forwardSignal 2 .SIGTERM := congrArg (forwardSignal · .SIGTERM) hstored
    _ = some (2, .SIGTERM) := forwardSignal_pos (by decide) _

end Styrolite
