import Styrolite.Spec.Halves
import Styrolite.Spec.Attached

/-!
# The workload of either `wrap`

`CreateRequest::wrap` and `AttachRequest::wrap` end in the same way: whatever
process comes to `execvpe` has run `preexec_prep` to its end and is inside
`execute`. Facts about what the workload starts with need no more than that.
-/

namespace Styrolite

open Prog

/-- A request of either kind. -/
inductive Request where
  | create (req : CreateRequest)
  | attach (req : AttachRequest)

namespace Request

def wrap : Request → Sys Unit
  | create req => req.wrap
  | attach req => req.wrap

def exec : Request → ExecutableSpec
  | create req => req.exec
  | attach req => req.exec

def capabilities : Request → Option Capabilities
  | create req => req.capabilities
  | attach req => req.capabilities

end Request

variable {h : List Event} {program : String} {args env : List String}

/-- The kinds of calls before `preexec_prep`. -/
def earlyKinds : List Call.Kind :=
  [.env, .enterPivot, .enterLate, .file, .oom, .ns, .uts, .rlimit, .signal, .eventfd, .efd, .fork,
    .mount, .pivot, .chown]

/-- A history of `wrap` up to `execvpe`, cut at the entry and the end of `preexec_prep`. -/
structure Launch (r : Request) (h : List Event) (c : Call) (before prep after : List Event) :
    Prop where
  hist : h = before ++ (prep ++ after)
  before : ∀ e ∈ before, e.call.kind ∈ earlyKinds
  prep : (preexecPrep r.exec r.capabilities).Runs prep (.ok ())
  after : r.exec.execute.At after c

private theorem kinds_of_reaches {α : Type} {p q : Sys α} {ks : List Call.Kind}
    (hp : p.Uses (Call.within ks)) (hks : ∀ k ∈ ks, k ∈ earlyKinds) (hr : p.Reaches h q) :
    ∀ e ∈ h, e.call.kind ∈ earlyKinds :=
  fun e he => hks _ (hp.mem (e := e) hr he)

theorem CreateRequest.wrap_launch {req : CreateRequest}
    (hat : req.wrap.At h (.execvpe program args env)) :
    ∃ before prep after, Launch (.create req) h (.execvpe program args env) before prep after := by
  have hk : (Call.execvpe program args env).kind ∈ [.exec] := by simp [Call.kind]
  obtain ⟨⟨⟩, h₀, _, hpro, hat₁, rfl⟩ := req.prologue_uses.at_past (by decide) hk hat
  rcases at_sys_bind.1 hat₁ with ⟨-, hc⟩ | ⟨r, h₁, rfl, hat₂⟩
  · cases hc
  rcases r with e | child | _
  · exact absurd hat₂ at_done
  · -- the supervisor never executes the workload
    exact absurd hat₂ ((req.supervise_uses child).not_at (by decide) hk)
  · obtain ⟨hs, n, h₂, rfl, hsig, hrest⟩ := childMain_at_late hat₂ (by simp [Call.kind, lateKinds])
    obtain ⟨hp, ho, hc, hq, he, rfl, hpr, hor, hcr, hqr, hexec⟩ := childRest_at_exec hrest
    refine ⟨h₀ ++ ⟨.fork, .ok .child⟩ :: (hs ++ ⟨.efdRead .child, .ok n⟩ :: (hp ++ (ho ++ hc))),
      hq, he, by simp, ?_, hqr, hexec⟩
    simp only [List.forall_mem_append, List.forall_mem_cons]
    exact ⟨kinds_of_reaches req.prologue_uses (by decide) hpro, by decide,
      kinds_of_reaches req.childSignal_uses (by decide) hsig, by decide,
      kinds_of_reaches (.when fun _ => req.pivotIfMount_uses) (by decide) hpr,
      kinds_of_reaches (applyOomScore_uses _) (by decide) hor,
      kinds_of_reaches (setupConsole_uses _) (by decide) hcr⟩

theorem AttachRequest.wrap_launch {req : AttachRequest}
    (hat : req.wrap.At h (.execvpe program args env)) :
    ∃ before prep after, Launch (.attach req) h (.execvpe program args env) before prep after := by
  have hk : (Call.execvpe program args env).kind ∈ [.exec] := by simp [Call.kind]
  obtain ⟨⟨⟩, h₀, _, hpro, hat₁, rfl⟩ := req.prologue_uses.at_past (by decide) hk hat
  rcases at_sys_bind.1 hat₁ with ⟨-, hc⟩ | ⟨r, h₁, rfl, hat₂⟩
  · cases hc
  rcases r with e | child | _
  · exact absurd hat₂ at_done
  · exact absurd hat₂ ((supervise_uses child).not_at (by decide) hk)
  · have hreset := orExit_uses resetChildSignalHandlers_uses
    obtain ⟨⟨⟩, hs, _, hsig, hat₃, rfl⟩ := hreset.at_past (by decide) hk hat₂
    obtain ⟨⟨⟩, hq, he, hqr, hexec, rfl⟩ := (preexecPrep_uses _ _).at_past (by decide) hk hat₃
    refine ⟨h₀ ++ ⟨.fork, .ok .child⟩ :: hs, hq, he, by simp, ?_, hqr, hexec⟩
    simp only [List.forall_mem_append, List.forall_mem_cons]
    exact ⟨kinds_of_reaches req.prologue_uses (by decide) hpro, by decide,
      kinds_of_reaches hreset (by decide) hsig⟩

/-- Whoever comes to `execvpe` has been through `preexec_prep`. -/
theorem Request.wrap_launch {r : Request} (hat : r.wrap.At h (.execvpe program args env)) :
    ∃ before prep after, Launch r h (.execvpe program args env) before prep after := by
  cases r with
  | create req => exact CreateRequest.wrap_launch hat
  | attach req => exact AttachRequest.wrap_launch hat

end Styrolite
