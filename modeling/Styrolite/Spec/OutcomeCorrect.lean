import Styrolite.ForStd.Watched
import Styrolite.Spec.ExitCorrect
import Styrolite.Spec.JoinedCorrect
import Styrolite.Spec.Signals

/-!
# One workload, and its exit code

Supervisor and child of both `wrap`s are followed to their ends. Only the child
executes the workload, at most once and as the last thing it does, and no other
process is waited for by its number. `waitpid` tells of a process that has ended how
it ended (`WaitsTruly`). So the supervisor's exit code, if it is not 1, is that of a
workload that was executed: nothing that goes wrong before is reported as success.

## Key results

- `Request.wrap_once`: who executes the workload
- `Request.wrap_code`: the exit code of the supervisor
-/

namespace Styrolite

open Prog Kernel

/-! ## The last call -/

/-- A program of some kinds is apart from all others. -/
theorem apart_of_uses {α : Type} {p : Sys α} {ks ks' : List Call.Kind}
    (hp : p.Uses (Call.within ks)) (hks : ∀ k ∈ ks, k ∉ ks') :
    p.Uses fun (c : Call) => ¬ c.within ks' :=
  hp.mono fun _ hc => hks _ hc

/-- So is a single call. -/
theorem call_apart {c : Call} {ks : List Call.Kind} (hc : c.kind ∉ ks) :
    Prog.Uses (α := no_index c.Answer) (fun (c : Call) => ¬ c.within ks) (sys c) :=
  Uses.sys (I := calls) hc

/-- Nothing comes after the workload. -/
theorem ExecutableSpec.execute_lasts (exec : ExecutableSpec) :
    exec.execute.Lasts (Call.within [.exec]) := by
  have hwd : (whenSome exec.workingDirectory fun wd => do
      check (← sys (.setCurrentDir wd))).Uses (Call.within [.file]) :=
    .whenSome fun _ _ => uses_checked _ rfl
  unfold execute
  refine .bind (call_apart (by decide)) fun _ =>
    .bind (.check _ _) fun _ => .bind (.check _ _) fun _ => .bind (.check _ _) fun _ =>
    .bind (.check _ _) fun _ => .bind (apart_of_uses hwd (by decide)) fun _ =>
    .bind (apart_of_uses (.when fun _ => setNoNewPrivs_uses) (by decide)) fun _ =>
    .bind (apart_of_uses exec.installSeccomp_uses (by decide)) fun _ =>
    .bind (apart_of_uses (.whenSome fun _ _ => .mapErr (changeOnexec_uses _)) (by decide)) fun _ =>
    .bind (apart_of_uses resetSigpipe_uses (by decide)) fun _ => .call (I := calls) fun r => ?_
  -- The last call is that of the workload, after which there is nothing
  cases r with
  | ok u => exact ⟨_, rfl⟩
  | error e => exact ⟨_, rfl⟩

namespace Request

/-- Nothing comes after the workload in the child. -/
theorem childMain_lasts (r : Request) : r.childMain.Lasts (Call.within [.exec]) := by
  cases r with
  | create req =>
    refine .bind (apart_of_uses req.childSignal_uses (by decide)) fun _ =>
      .bind (call_apart (by decide)) fun _ =>
      .bind (.check _ _) fun _ =>
      .bind (apart_of_uses (.when fun _ => req.pivotIfMount_uses) (by decide)) fun _ =>
      .bind (apart_of_uses (applyOomScore_uses _) (by decide)) fun _ =>
      .bind (apart_of_uses (setupConsole_uses _) (by decide)) fun _ =>
      .bind (apart_of_uses (preexecPrep_uses _ _) (by decide)) fun _ => req.exec.execute_lasts
  | attach req =>
    exact .bind (apart_of_uses (orExit_uses resetChildSignalHandlers_uses) (by decide)) fun _ =>
      .bind (apart_of_uses (preexecPrep_uses _ _) (by decide)) fun _ => req.exec.execute_lasts

/-- Before the fork nothing is forked, waited for or executed. -/
theorem prologue_before (r : Request) :
    r.prologue.Uses fun (c : Call) => ¬ c.within [.fork, .wait, .exec] := by
  cases r with
  | create req => exact apart_of_uses req.prologue_uses (by decide)
  | attach req => exact apart_of_uses req.prologue_uses (by decide)

/-- The child forks nothing and waits for nothing. -/
theorem childMain_apart (r : Request) :
    r.childMain.Uses fun (c : Call) => ¬ c.within [.fork, .wait] := by
  cases r with
  | create req => exact apart_of_uses req.childMain_uses (by decide)
  | attach req => exact apart_of_uses req.childMain_uses (by decide)

/-- The supervisor waits for its child only. -/
theorem supervise_waits (r : Request) (child : Int) : (r.supervise child).Uses fun (c : Call) =>
    ¬ c.within [.fork, .exec] ∧ ∀ n, c = .waitpid n → n = child := by
  have hother : ∀ {α : Type} {p : Sys α} {ks : List Call.Kind}, p.Uses (Call.within ks) →
      (∀ k ∈ ks, k ∉ [.wait, .fork, .exec]) → p.Uses fun (c : Call) =>
        ¬ c.within [.fork, .exec] ∧ ∀ n, c = .waitpid n → n = child := by
    intro α p ks hp hks
    refine (apart_of_uses hp hks).mono fun c hc => ⟨fun hin => hc (List.mem_cons_of_mem _ hin), ?_⟩
    rintro n rfl
    exact absurd List.mem_cons_self hc
  have hsys : ∀ {c : Call}, c.kind ∉ [.wait, .fork, .exec] → Prog.Uses (α := no_index c.Answer)
      (fun (c : Call) => ¬ c.within [.fork, .exec] ∧ ∀ n, c = .waitpid n → n = child) (sys c) :=
    fun {c} hc => hother (uses_sys c (decide_eq_true (List.mem_singleton_self c.kind)))
      fun _ hk => List.mem_singleton.1 hk ▸ hc
  -- Waiting is for the child, and reaping for nobody in particular
  have hwait : ¬ (Call.waitpid child).within [.fork, .exec] := by simp [Call.within, Call.kind]
  have hend : (superviseEnd child).Uses fun (c : Call) =>
      ¬ c.within [.fork, .exec] ∧ ∀ n, c = .waitpid n → n = child :=
    .bind (.bind (Uses.sys (I := calls) ⟨hwait, fun _ heq => (Call.waitpid.inj heq).symm⟩)
        fun _ => .bind (.check _ _) fun status => by cases status <;> exact .pure _) fun _ =>
      .bind (.bind (Uses.sys (I := calls) ⟨by decide, fun _ heq => by cases heq⟩)
        fun _ => .pure _) fun _ => .halt _
  cases r with
  | create req =>
    exact .bind (hsys (by simp [Call.kind])) fun _ => .bind (hsys (by decide)) fun _ =>
      .bind (.check _ _) fun _ => .bind (hother (req.configure_uses child) (by decide)) fun _ =>
      hend
  | attach req =>
    exact .bind (hsys (by simp [Call.kind])) fun _ => hend

variable {r : Request} {root : Int} {s₀ : World} {cfg : Config calls Int World Err Unit}
  {child : Int} {h₀ h₁ h₂ : List Event} {p₁ p₂ : Sys Unit}

/-- Alone, the first process has waited for nothing and executed nothing. -/
theorem solo_before {h : List Event} {q : Sys Unit}
    (hsolo : Solo linuxPids root s₀ r.wrap cfg h q) {e : Event} (he : e ∈ h) :
    ¬ e.call.within [.wait, .exec] ∧ e ≠ ⟨.fork, .ok .child⟩ := by
  refine ⟨?_, ?_⟩
  · rw [wrap_eq] at hsolo
    have hbody : ∀ s h (x : Unit) a, linuxPids.allows s root h .fork a →
        linuxPids.spawn .fork a = none → ∃ y, r.afterFork a = .done y := by
      intro s h x a hallows hspawn
      -- A fork that fails ends the function
      rcases a with e | _ | _
      · exact r.afterFork_error e
      · cases hspawn
      · exact absurd hallows.1 id
    rcases hsolo.event_cases hbody he with ⟨h', hat⟩ | hfork
    · exact fun hin => r.prologue_before _ _ hat (List.mem_cons_of_mem _ hin)
    · rw [hfork]
      decide
  · -- The child's answer is none the first process gets
    rintro rfl
    obtain ⟨a, b, rfl⟩ := List.append_of_mem he
    exact (hsolo.lawful a _ b rfl).1

/-- The first process executes nothing, and waits for the child alone. -/
theorem Duo.root_event (hd : r.Duo root cfg child h₀ h₁ h₂ p₁ p₂) {e : Event}
    (he : e ∈ h₀ ++ ⟨.fork, .ok (.parent child)⟩ :: h₁) :
    ¬ e.call.within [.exec] ∧ (∀ n, e.call = .waitpid n → n = child) ∧
      e ≠ ⟨.fork, .ok .child⟩ := by
  rcases List.mem_append.1 he with he | he
  · -- Before the fork nothing is executed or waited for
    have hbefore := r.prologue_before.mem hd.prologue he
    refine ⟨fun hin => hbefore ?_, fun n heq => absurd ?_ hbefore, fun heq => absurd ?_ hbefore⟩
    · exact List.mem_cons_of_mem _ (List.mem_cons_of_mem _ hin)
    · rw [heq]
      simp [Call.within, Call.kind]
    · rw [heq]
      simp [Call.within, Call.kind]
  · rcases List.mem_cons.1 he with rfl | he
    · simp [Call.within, Call.kind]
    · -- After it only the child is waited for
      obtain ⟨hapart, hwait⟩ := (r.supervise_waits child).mem (e := e) hd.rootReaches he
      refine ⟨fun hin => hapart (List.mem_cons_of_mem _ hin), hwait, ?_⟩
      rintro rfl
      exact hapart List.mem_cons_self

/-- Who has executed the workload is not the process that was started with `wrap`. It has done so
    once and nothing afterwards, and no other process has done it or called `waitpid` for a named
    process other than this one. (`reap_children` asks for any child that has ended, and names
    none.) -/
theorem wrap_once (hr : linuxPids.Reachable root r.wrap s₀ cfg) {pid : Int} {h h' : List Event}
    {e : Event} {q : Sys Unit} (hproc : cfg.procs pid = some ⟨h ++ e :: h', q⟩)
    (he : e.call.kind = .exec) :
    pid ≠ root ∧ (h' = [] ∧ ∃ out, q = .done out) ∧ (∀ e' ∈ h, e'.call.kind ≠ .exec) ∧
      ∀ other P, cfg.procs other = some P → other ≠ pid →
        ∀ e' ∈ P.hist, e'.call.kind ≠ .exec ∧ ∀ n, e'.call = .waitpid n → n = pid := by
  have hexec : ∀ {c : Call}, c.within [.exec] ↔ c.kind = .exec := List.mem_singleton
  rcases fork_cases hr with ⟨h₃, q₃, hsolo⟩ | ⟨child, h₀, h₁, h₂, p₁, p₂, hd⟩
  · obtain ⟨rfl, heq⟩ := hsolo.proc_eq hproc
    cases heq
    exact absurd (List.mem_cons_of_mem _ (hexec.2 he)) (solo_before hsolo (by simp)).1
  have hroot : ∀ e' ∈ h₀ ++ ⟨.fork, .ok (.parent child)⟩ :: h₁,
      e'.call.kind ≠ .exec ∧ ∀ n, e'.call = .waitpid n → n = child := fun e' he' =>
    ⟨fun heq => (hd.root_event he').1 (hexec.2 heq), (hd.root_event he').2.1⟩
  -- The first process executes nothing
  rcases Config.proc_cases hd.rootProc hd.childProc hd.others hproc with
    ⟨rfl, heq⟩ | ⟨hne, rfl, heq⟩
  · obtain ⟨hhist, -⟩ := Process.mk.inj heq
    exact absurd he (hroot e (hhist ▸ by simp)).1
  obtain ⟨hhist, rfl⟩ := Process.mk.inj heq
  have hbefore : ∀ e' ∈ h₀, e'.call.kind ≠ .exec := fun e' he' heq =>
    r.prologue_before.mem hd.prologue he' (by simp [Call.within, heq])
  -- it was done after the fork
  obtain ⟨l, rfl, rfl⟩ : ∃ l, h = h₀ ++ ⟨.fork, .ok .child⟩ :: l ∧ h₂ = l ++ e :: h' := by
    rcases List.append_eq_append_iff.1 hhist with ⟨l, hl, hrest⟩ | ⟨l, rfl, hrest⟩
    · cases l with
      | nil =>
        cases hrest
        cases he
      | cons e' l =>
        cases hrest
        exact absurd he (hbefore e (by simp [hl]))
    · cases l with
      | nil =>
        cases hrest
        cases he
      | cons e' l =>
        cases hrest
        exact ⟨l, rfl, rfl⟩
  -- It is the last call, and there is none like it before or in the other process
  refine ⟨hne, r.childMain_lasts _ _ _ _ hd.childReaches (hexec.2 he), fun e' he' => ?_,
    fun other P hP hother => ?_⟩
  · rcases List.mem_append.1 he' with he' | he'
    · exact hbefore e' he'
    · rcases List.mem_cons.1 he' with rfl | he'
      · simp [Call.kind]
      · exact fun heq => (r.childMain_lasts.not_before hd.childReaches) e' he' (hexec.2 heq)
  · rcases Config.proc_cases hd.rootProc hd.childProc hd.others hP with
      ⟨-, rfl⟩ | ⟨-, heq, -⟩
    · exact hroot
    · exact absurd heq hother

/-! ## The exit code -/

end Request

/-- `waitpid` gives an exit code only of a process that has ended. Of one that `wrap` has ended it
    is the code of that end; of one that has become the workload it is any code a process may
    have. -/
def WaitsTruly (cfg : Config calls Int World Err Unit) : Event → Prop
  | ⟨.waitpid child, .ok (.exited _ code)⟩ => (0 ≤ code ∧ code < 256) ∧
    ∃ h out, cfg.procs child = some ⟨h, .done out⟩ ∧ (out = .ok () ∨ code = exitCode out)
  | _ => True

namespace Request

variable {r : Request} {root : Int} {s₀ : World} {cfg : Config calls Int World Err Unit}
  {child : Int} {h₀ h₁ h₂ : List Event} {p₁ p₂ : Sys Unit}

/-- How `wrap` may have ended. -/
theorem wrap_ended {h : List Event} {out : Outcome Err Unit} (hr : r.wrap.Runs h out) :
    Ended h out := by
  cases r with
  | create req => exact CreateRequest.wrap_ended hr
  | attach req => exact AttachRequest.wrap_ended hr

/-- A child that has ended has become the workload, or exits with 1. -/
theorem Duo.child_ended (hd : r.Duo root cfg child h₀ h₁ h₂ p₁ (.done out))
    (hruns : r.wrap.Runs (h₀ ++ ⟨.fork, .ok .child⟩ :: h₂) out) :
    (out = .ok () ∧ ∃ hc e, h₀ ++ ⟨.fork, .ok .child⟩ :: h₂ = hc ++ [e] ∧ BecomesWorkload e) ∨
      exitCode out = 1 := by
  cases wrap_ended hruns with
  | workload hchild hlast he => exact .inl ⟨rfl, _, _, hlast, he⟩
  | waited child' hfork hwait =>
    -- the child waits for nobody
    rcases List.mem_append.1 hwait with hwait | hwait
    · exact absurd (by simp [Call.within, Call.kind]) (r.prologue_before.mem hd.prologue hwait)
    · rcases List.mem_cons.1 hwait with heq | hwait
      · cases heq
      · exact absurd (by simp [Call.within, Call.kind])
          (r.childMain_apart.mem (e := _) hd.childReaches hwait)
  | failed hfail =>
    rcases hfail with ⟨e, rfl⟩ | rfl
    · exact .inr rfl
    · exact .inr rfl

/-- The exit code of the supervisor is 1, or that of its child, which has executed the workload. -/
theorem wrap_code (hr : linuxPids.Watched WaitsTruly root r.wrap s₀ cfg) {h : List Event}
    {out : Outcome Err Unit} (hproc : cfg.procs root = some ⟨h, .done out⟩) :
    exitCode out = 1 ∨ ∃ child hc e pid,
      cfg.procs child = some ⟨hc ++ [e], .done (.ok ())⟩ ∧ BecomesWorkload e ∧
        (⟨.waitpid child, .ok (.exited pid (exitCode out))⟩ : Event) ∈ h := by
  have hreach := hr.reachable
  have hruns : r.wrap.Runs h out := hreach.reaches hproc
  -- By how the first process has ended
  cases wrap_ended hruns with
  | failed hfail =>
    rcases hfail with ⟨e, rfl⟩ | rfl
    · exact .inl rfl
    · exact .inl rfl
  | workload hchild hlast he =>
    rcases fork_cases hreach with ⟨h₃, q₃, hsolo⟩ | ⟨child, h₀, h₁, h₂, p₁, p₂, hd⟩
    · cases (hsolo.proc_eq hproc).2
      exact absurd rfl (solo_before hsolo hchild).2
    · cases hd.rootProc.symm.trans hproc
      exact absurd rfl (hd.root_event hchild).2.2
  | @waited child status hfork hwait =>
    cases status with
    | stillAlive => exact .inl rfl
    | other => exact .inl rfl
    | exited pid code =>
      -- whoever is waited for has ended
      have hno : ∀ a, linuxPids.spawn (.waitpid child) a = none := fun _ => rfl
      obtain ⟨⟨hpos, hlt⟩, hc, out', hdone, hcode⟩ := hr.of_answered
        (P := fun cfg => (0 ≤ code ∧ code < 256) ∧ ∃ h out,
          cfg.procs child = some ⟨h, .done out⟩ ∧ (out = .ok () ∨ code = exitCode out))
        (fun _ hA => hA)
        (fun _ _ hs ⟨hrange, h, out, hdone, hcode⟩ => ⟨hrange, h, out, hs.ended hdone, hcode⟩)
        (fun a q b hs => absurd ((hno a).symm.trans hs) (by simp)) hproc hwait
      have hexit : exitCode (.halt code) = code := Int.emod_eq_of_lt hpos hlt
      rw [WaitStatus.code, hexit]
      have hruns' : r.wrap.Runs hc out' := hreach.reaches hdone
      rcases fork_cases hreach with ⟨h₃, q₃, hsolo⟩ | ⟨child', h₀, h₁, h₂, p₁, p₂, hd⟩
      · cases (hsolo.proc_eq hproc).2
        exact absurd List.mem_cons_self (solo_before hsolo hwait).1
      · cases hd.rootProc.symm.trans hproc
        obtain rfl : child = child' := (hd.root_event hwait).2.1 child rfl
        cases hd.childProc.symm.trans hdone
        -- The child has become the workload, or has failed, which is code 1
        rcases hd.child_ended hruns' with ⟨rfl, hc, e, hlast, he⟩ | hone
        · exact .inr ⟨child, hc, e, pid, hlast ▸ hdone, he, hwait⟩
        · rcases hcode with rfl | rfl
          · cases hone
          · exact .inl hone

end Request

/-! ## A shell that exits -/

/-- Only an answer to `waitpid` says something about another process. -/
theorem waitsTruly_of_free {e : Event} (he : e.call.kind ≠ .wait)
    (cfg : Config calls Int World Err Unit) : WaitsTruly cfg e := by
  unfold WaitsTruly
  split
  · exact absurd rfl he
  · trivial

/-- Both processes may make free calls as they like. -/
theorem linuxPids_allows {e : Event} (he : e.call.free = true) (s : World) (p : Int)
    (h : List Event) : linuxPids.allows s p h e.call e.answer :=
  ⟨s.allows_of_free p e.answer he, fun _ heq =>
    absurd (congrArg Interface.Event.call heq) (Call.ne_fork_of_free he)⟩

/-- Whatever code a workload exits with, an undisturbed supervisor exits with it. -/
theorem AttachRequest.passes_code {req : AttachRequest} {root child code : Int}
    {h₀ h₂ : List Event} (s₀ : World) (hpos : 0 < child) (hne : child ≠ root)
    (hpro : req.prologue.Runs h₀ (.ok ())) (hchild : req.childMain.Runs h₂ (.ok ()))
    (hfree₀ : ∀ e ∈ h₀, e.call.free = true) (hfree₂ : ∀ e ∈ h₂, e.call.free = true)
    (hcode : 0 ≤ code ∧ code < 256) :
    ∃ cfg h, linuxPids.Watched WaitsTruly root req.wrap s₀ cfg ∧
      cfg.procs root = some ⟨h, .done (.halt code)⟩ ∧
      cfg.procs child = some ⟨h₀ ++ ⟨.fork, .ok .child⟩ :: h₂, .done (.ok ())⟩ := by
  have hreach : req.wrap.Reaches h₀ (.call (I := calls) .fork req.afterFork) := by
    rw [wrap_eq]
    exact reaches_bind.2 (.inr ⟨(), h₀, [], hpro, .refl _, by simp⟩)
  have hstart : (Config.start (I := calls) root req.wrap s₀).procs root = some ⟨[], req.wrap⟩ := by
    simp [Config.start]
  have hnowait₀ : ∀ e ∈ h₀, e.call.kind ≠ .wait := fun e he heq =>
    (Request.attach req).prologue_before.mem hpro he (by simp [Call.within, heq])
  have hnowait₂ : ∀ e ∈ h₂, e.call.kind ≠ .wait := fun e he heq =>
    (Request.attach req).childMain_apart.mem hchild he (by simp [Call.within, heq])
  -- up to the fork
  obtain ⟨cfg₁, hr₁, hroot₁, hothers₁⟩ := Watched.calls (K := linuxPids) .refl hstart hreach
    (fun e he s h => linuxPids_allows (hfree₀ e he) s root h)
    (fun e he => spawn_none _ (Call.ne_fork_of_free (hfree₀ e he)))
    (fun e he => waitsTruly_of_free (hnowait₀ e he))
  have hfresh : cfg₁.procs child = none := by
    rw [hothers₁ child hne]
    simp [Config.start, hne]
  have hallows : linuxPids.allows cfg₁.state root ([] ++ h₀) .fork (.ok (.parent child)) :=
    ⟨trivial, fun q heq => by cases heq; exact hpos⟩
  obtain ⟨cfg₂, hr₂, hroot₂, hchild₂⟩ := hr₁.fork hroot₁ hallows rfl hfresh
    (waitsTruly_of_free (by simp [Call.kind]) _)
  -- the child becomes the workload
  obtain ⟨cfg₃, hr₃, hchild₃, hothers₃⟩ := hr₂.calls hchild₂ hchild
    (fun e he s h => linuxPids_allows (hfree₂ e he) s child h)
    (fun e he => spawn_none _ (Call.ne_fork_of_free (hfree₂ e he)))
    (fun e he => waitsTruly_of_free (hnowait₂ e he))
  rw [← hothers₃ root hne.symm] at hroot₂
  -- and the supervisor waits for it
  obtain ⟨cfg₄, hr₄, hroot₄, hothers₄⟩ := hr₃.call (c := .storeChildPid child) (a := ()) hroot₂
    (linuxPids_allows (e := ⟨.storeChildPid child, ()⟩) rfl _ _ _) rfl
    (waitsTruly_of_free (by simp [Call.kind]) _)
  rw [← hothers₄ child hne] at hchild₃
  obtain ⟨cfg₅, hr₅, hroot₅, hothers₅⟩ := hr₄.call (c := .waitpid child)
    (a := .ok (.exited child code)) hroot₄
    (linuxPids_allows (e := ⟨.waitpid child, .ok (.exited child code)⟩) rfl _ _ _) rfl
    ⟨hcode, _, _, hchild₃, .inl rfl⟩
  rw [← hothers₅ child hne] at hchild₃
  obtain ⟨cfg₆, hr₆, hroot₆, hothers₆⟩ := hr₅.call (c := .reapChildren) (a := []) hroot₅
    (linuxPids_allows (e := ⟨.reapChildren, []⟩) rfl _ _ _) rfl trivial
  rw [← hothers₆ child hne] at hchild₃
  exact ⟨cfg₆, _, hr₆, hroot₆, by simpa using hchild₃⟩

/-- A shell that exits with 7 is waited for, and its code is passed on. -/
theorem shell_passes_code : ∃ cfg h, linuxPids.Watched WaitsTruly 3
    (Request.attach (.shell [.mount])).wrap .fresh cfg ∧
      cfg.procs 3 = some ⟨h, .done (.halt 7)⟩ ∧
      cfg.procs 4 = some ⟨((AttachRequest.shell [.mount]).prologue.eval succeeding []).1 ++
        ⟨.fork, .ok .child⟩ :: ((AttachRequest.shell [.mount]).childMain.eval succeeding []).1,
        .done (.ok ())⟩ :=
  AttachRequest.passes_code .fresh (by decide) (by decide)
    ((AttachRequest.shell [.mount]).prologue.eval_runs succeeding [])
    ((AttachRequest.shell [.mount]).childMain.eval_runs succeeding []) (by decide) (by decide)
    (by decide)

/-- A shell in the namespaces of process 2 that exits with 7 is what the supervisor exits
    with. -/
theorem wrap_code_shell : ∃ cfg h, linuxPids.Watched WaitsTruly 3
    (Request.attach (.shell [.mount])).wrap .fresh cfg ∧
      cfg.procs 3 = some ⟨h, .done (.halt 7)⟩ ∧ ∃ child hc e pid,
        cfg.procs child = some ⟨hc ++ [e], .done (.ok ())⟩ ∧ BecomesWorkload e ∧
          (⟨.waitpid child, .ok (.exited pid 7)⟩ : Event) ∈ h := by
  obtain ⟨cfg, h, hr, hroot, -⟩ := shell_passes_code
  refine ⟨cfg, h, hr, hroot, ?_⟩
  exact (Request.wrap_code (r := .attach (.shell [.mount])) hr hroot).resolve_left (by decide)

/-- It is what has executed, and the supervisor and all others have not. -/
theorem wrap_once_shell : ∃ cfg h, linuxPids.Reachable 3
    (Request.attach (.shell [.mount])).wrap .fresh cfg ∧
      cfg.procs 4 = some ⟨h ++ [⟨.execvpe "/bin/sh" ["/bin/sh"] [], .ok ()⟩], .done (.ok ())⟩ ∧
      ∀ other P, cfg.procs other = some P → other ≠ 4 → ∀ e ∈ P.hist, e.call.kind ≠ .exec := by
  obtain ⟨cfg, -, hr, -, hchild⟩ := shell_passes_code
  have hlast : ((AttachRequest.shell [.mount]).childMain.eval succeeding []).1 =
      ((AttachRequest.shell [.mount]).childMain.eval succeeding []).1.dropLast ++
        [⟨.execvpe "/bin/sh" ["/bin/sh"] [], Except.ok ()⟩] := rfl
  rw [hlast, ← List.cons_append, ← List.append_assoc] at hchild
  obtain ⟨-, -, -, hothers⟩ := Request.wrap_once (r := .attach (.shell [.mount])) hr.reachable
    hchild rfl
  exact ⟨cfg, _, hr.reachable, hchild, fun other P hP hne e he => (hothers other P hP hne e he).1⟩

end Styrolite
