import Styrolite.ForStd.Settings
import Styrolite.ForStd.Triples
import Styrolite.Spec.Request

/-!
# The process limits

Both `wrap`s set the fifteen limits in one pass that ends at the first refusal,
and only log that refusal. A limit that was not asked for is asked to be
unlimited, so it can be the one that is refused. A limit that was asked for is
therefore in force at `execvpe` just if it was so before, or if every limit
ahead of it in the pass would be granted (`wrap_limits_iff`).

The kernel is any that decides about each `setrlimit` call by the limits of
that one resource, the new limits and the privilege of the caller.

## Key results

- `Request.wrap_limits`: the limits in force at `execvpe`
- `Request.wrap_limits_iff`: when those asked for are among them
-/

namespace Styrolite

open Prog LocalRules Settings

/-- `struct rlimit`. -/
structure Limits where
  cur : U64
  max : U64
  deriving DecidableEq, Repr

/-- The limits of a process. -/
abbrev LimitTable := RLimit → Limits

/-- Whether a resource with the first limits may be given the second. -/
abbrev LimitPolicy := RLimit → Limits → Limits → Bool

/-- The rules of `setrlimit(2)`. -/
def limitRules (accepts : LimitPolicy) : LocalRules calls LimitTable where
  allows t c a :=
    match c, a with
    | .setrlimit r cur max, .ok _ => accepts r (t r) ⟨cur, max⟩ = true
    | .setrlimit r cur max, .error _ => accepts r (t r) ⟨cur, max⟩ ≠ true
    | _, _ => True
  next t c a :=
    match c, a with
    | .setrlimit r cur max, .ok _ => Function.update t r ⟨cur, max⟩
    | _, _ => t

theorem limitRules_next {accepts : LimitPolicy} {c : Call} (hc : c.kind ≠ .rlimit) (a : c.Answer)
    (t : LimitTable) : (limitRules accepts).next t c a = t := by
  cases c with
  | setrlimit r cur max => exact absurd rfl hc
  | _ => rfl

/-- The limits that `set_process_limit` asks for. -/
def bothLimits (limit : Option U64) : Limits :=
  ⟨limit.getD RLIM_INFINITY, limit.getD RLIM_INFINITY⟩

/-- What `set_process_limits` asks for, in order. -/
def ProcessResourceLimits.requests (l : ProcessResourceLimits) : List (RLimit × Limits) :=
  l.calls.map fun e => (e.1, bothLimits e.2)

theorem ProcessResourceLimits.requests_nodup (l : ProcessResourceLimits) :
    (l.requests.map Prod.fst).Nodup := by
  have hkeys : l.requests.map Prod.fst = [.as, .core, .cpu, .data, .fsize, .memlock, .msgqueue,
      .nice, .nofile, .nproc, .rss, .rtprio, .rttime, .sigpending, .stack] := rfl
  rw [hkeys]
  decide

section

variable {accepts : LimitPolicy} {t : LimitTable} {h : List Event}

theorem setProcessLimit_ends (r : RLimit) (limit : Option U64) :
    (limitRules accepts).Ends t (setProcessLimit r limit)
      (fun _ t' => accepts r (t r) (bothLimits limit) = true ∧
        t' = Function.update t r (bothLimits limit))
      fun t' => accepts r (t r) (bothLimits limit) ≠ true ∧ t' = t := by
  refine .mapErr (.bind (.sys (I := calls) fun a ha => ?_))
  cases a with
  | ok u => exact .pure ⟨ha, rfl⟩
  | error e => exact .fail ⟨ha, rfl⟩

/-- The pass over the limits, whether it comes to its end or not. -/
theorem setAll_ends (l : List (RLimit × Option U64)) :
    (limitRules accepts).Ends t (forM l fun (resource, limit) => setProcessLimit resource limit)
      (fun _ t' => t' = setUntil accepts t (l.map fun e => (e.1, bothLimits e.2)))
      fun t' => t' = setUntil accepts t (l.map fun e => (e.1, bothLimits e.2)) := by
  induction l generalizing t with
  | nil => exact .pure rfl
  | cons e l ih =>
    rw [List.forM_cons, List.map_cons]
    refine .bind ((setProcessLimit_ends e.1 e.2).mono (fun _ t' hok => ?_) fun t' hno => ?_)
    · rw [setUntil_cons_of_accepted hok.1, hok.2]
      exact ih
    · rw [setUntil_cons_of_refused hno.1]
      exact hno.2

/-- The limits that are left by a pass over those of the executable. -/
def ExecutableSpec.limitsAfter (exec : ExecutableSpec) (accepts : LimitPolicy) (t : LimitTable) :
    LimitTable :=
  setUntil accepts t ((exec.processLimits.map ProcessResourceLimits.requests).getD [])

theorem setProcessLimits_ends (exec : ExecutableSpec) :
    (limitRules accepts).Ends t exec.setProcessLimits
      (fun _ t' => t' = exec.limitsAfter accepts t) fun t' => t' = exec.limitsAfter accepts t := by
  unfold ExecutableSpec.limitsAfter
  refine .whenSome (fun l hl => ?_) fun hnone => ?_
  · rw [hl]
    exact setAll_ends l.calls
  · rw [hnone]
    rfl

/-- The callers of `set_process_limits` go on whether it succeeds or not. -/
theorem attempt_setProcessLimits_ends (exec : ExecutableSpec) :
    (limitRules accepts).Ends t (attempt exec.setProcessLimits)
      (fun _ t' => t' = exec.limitsAfter accepts t) fun _ => False :=
  (Ends.attempt (setProcessLimits_ends exec) exec.setProcessLimits_returns).mono
    (fun _ _ hok => hok.elim (fun ⟨_, _, heq⟩ => heq) fun hno => hno.2) fun _ hno => hno

/-- A program that sets no limits. -/
theorem ends_of_kinds {α : Type} {p : Sys α} {ks : List Call.Kind}
    (hp : p.Uses (Call.within ks)) (hks : Call.Kind.rlimit ∉ ks) :
    (limitRules accepts).Ends t p (fun _ t' => t' = t) fun t' => t' = t :=
  .of_uses hp fun _ hc a t => limitRules_next (fun heq => hks (heq ▸ hc)) a t

/-- What follows a program that sets no limits. -/
theorem ends_past {α β : Type} {p : Sys α} {f : α → Sys β} {ks : List Call.Kind}
    {A : β → LimitTable → Prop} (hp : p.Uses (Call.within ks)) (hks : Call.Kind.rlimit ∉ ks)
    (hf : ∀ a, (limitRules accepts).Ends t (f a) A fun _ => True) :
    (limitRules accepts).Ends t (p >>= f) A fun _ => True :=
  .bind ((ends_of_kinds hp hks).mono (fun a _ heq => heq ▸ hf a) fun _ _ => trivial)

/-- The pass over the limits, and what follows it without setting any. -/
theorem ends_limits {exec : ExecutableSpec} {q : Sys Unit} (ks : List Call.Kind)
    (hq : q.Uses (Call.within ks)) (hks : Call.Kind.rlimit ∉ ks) :
    (limitRules accepts).Ends t (do
      let _ ← attempt exec.setProcessLimits
      q) (fun _ t' => t' = exec.limitsAfter accepts t) fun _ => True := by
  refine .bind ((attempt_setProcessLimits_ends exec).mono (fun _ t' heq => ?_) fun _ hno => hno.elim)
  refine (ends_of_kinds hq hks).mono (fun _ t'' heq' => ?_) fun _ _ => trivial
  rw [heq', heq]

theorem CreateRequest.prologue_limits (req : CreateRequest) :
    (limitRules accepts).Ends t req.prologue
      (fun _ t' => t' = req.exec.limitsAfter accepts t) fun _ => True := by
  unfold CreateRequest.prologue CreateRequest.setup
  refine ends_past (.attempt req.prepareCgroup_uses) (by decide) fun _ =>
    ends_past (unshare_uses _) (by decide) fun _ =>
    ends_past (.attempt updateBoottime_uses) (by decide) fun _ =>
    ends_past (.attempt req.updateHostname_uses) (by decide) fun _ => ?_
  exact ends_limits [.signal, .eventfd]
    (.bind (orExit_uses (setupParentSignalHandlers_uses.widen (by decide))) fun _ =>
      .bind (uses_sys _ rfl) fun r => .bind (uses_check r) fun _ => uses_checked _ rfl) (by decide)

theorem AttachRequest.prologue_limits (req : AttachRequest) :
    (limitRules accepts).Ends t req.prologue
      (fun _ t' => t' = req.exec.limitsAfter accepts t) fun _ => True := by
  unfold AttachRequest.prologue
  refine ends_past (firstChildPidOf_uses _) (by decide) fun _ =>
    ends_past (.attempt req.attachCgroup_uses) (by decide) fun _ =>
    ends_past (setns_uses _ _) (by decide) fun _ => ?_
  exact ends_limits [.oom, .signal]
    (.bind ((applyOomScore_uses _).widen (by decide)) fun _ =>
      orExit_uses (setupParentSignalHandlers_uses.widen (by decide))) (by decide)

/-- A history that sets no limits any more. -/
theorem limits_after_of_reaches {p q : Sys Unit} {ks : List Call.Kind}
    (hp : p.Uses (Call.within ks)) (hks : Call.Kind.rlimit ∉ ks) (hr : p.Reaches h q) :
    (limitRules accepts).after t h = t :=
  after_eq_of_forall fun e he t =>
    limitRules_next (fun heq => hks (heq ▸ hp.mem hr he)) e.answer t

theorem CreateRequest.rest_uses (req : CreateRequest) :
    (sys .fork >>= req.afterFork).Uses (Call.within
      [.fork, .enterUserns, .userns, .efd, .signal, .wait, .enterPivot, .enterLate, .env, .file,
        .mount, .pivot, .ns, .oom, .chown, .cred, .confine, .exec]) := by
  refine .bind (uses_sys _ rfl) fun r => ?_
  match r with
  | .error _ => exact .done _
  | .ok (.parent child) => exact (req.supervise_uses child).widen (by decide)
  | .ok .child => exact req.childMain_uses.widen (by decide)

/-- The limits in force at `execvpe`. -/
theorem Request.wrap_limits {r : Request} {program : String} {args env : List String}
    (hl : (limitRules accepts).Lawful t h) (hat : r.wrap.At h (.execvpe program args env)) :
    (limitRules accepts).after t h = r.exec.limitsAfter accepts t := by
  have hk : (Call.execvpe program args env).kind ∈ [.exec] := by simp [Call.kind]
  cases r with
  | create req =>
    obtain ⟨⟨⟩, h₀, h₁, hpro, ⟨k, hrest⟩, rfl⟩ := req.prologue_uses.at_past (by decide) hk hat
    obtain ⟨hl₀, -⟩ := lawful_append.1 hl
    rw [after_append, limits_after_of_reaches req.rest_uses (by decide) hrest]
    exact req.prologue_limits h₀ _ hl₀ hpro
  | attach req =>
    obtain ⟨⟨⟩, h₀, h₁, hpro, ⟨k, hrest⟩, rfl⟩ := req.prologue_uses.at_past (by decide) hk hat
    obtain ⟨hl₀, -⟩ := lawful_append.1 hl
    have hrest_uses : (sys .fork >>= req.afterFork).Uses
        (Call.within (.fork :: AttachRequest.pairKinds)) :=
      .bind (uses_sys _ rfl) fun r => (req.afterFork_uses r).widen (by decide)
    rw [after_append, limits_after_of_reaches hrest_uses (by decide) hrest]
    exact req.prologue_limits h₀ _ hl₀ hpro

namespace ProcessResourceLimits

/-- Each limit that was asked for, and would be granted on its own, is in force. -/
def Enforced (l : ProcessResourceLimits) (accepts : LimitPolicy) (t t' : LimitTable) : Prop :=
  ∀ r v, (r, some v) ∈ l.calls → accepts r (t r) ⟨v, v⟩ = true → t' r = ⟨v, v⟩

/-- Each limit that was asked for, and would be granted on its own, is in force already or comes
    after none that would be refused. What was not asked for is asked to be unlimited. -/
def Unobstructed (l : ProcessResourceLimits) (accepts : LimitPolicy) (t : LimitTable) : Prop :=
  ∀ before r v rest, l.calls = before ++ (r, some v) :: rest → accepts r (t r) ⟨v, v⟩ = true →
    t r = ⟨v, v⟩ ∨ ∀ e ∈ before, accepts e.1 (t e.1) (bothLimits e.2) = true

theorem enforced_iff {l : ProcessResourceLimits} :
    l.Enforced accepts t (setUntil accepts t l.requests) ↔ l.Unobstructed accepts t := by
  have hone : ∀ before r v rest, l.calls = before ++ (r, some v) :: rest →
      accepts r (t r) ⟨v, v⟩ = true → (setUntil accepts t l.requests r = ⟨v, v⟩ ↔
        t r = ⟨v, v⟩ ∨ ∀ e ∈ before, accepts e.1 (t e.1) (bothLimits e.2) = true) := by
    intro before r v rest hsplit ha
    have hrequests : l.requests = before.map (fun e => (e.1, bothLimits e.2)) ++
        (r, ⟨v, v⟩) :: rest.map fun e => (e.1, bothLimits e.2) := by
      rw [requests, hsplit, List.map_append]
      rfl
    have hnodup := l.requests_nodup
    rw [hrequests] at hnodup ⊢
    rw [setUntil_eq_iff hnodup ha, List.forall_mem_map]
  constructor
  · intro henf before r v rest hsplit ha
    refine (hone before r v rest hsplit ha).1 (henf r v ?_ ha)
    rw [hsplit]
    exact List.mem_append_right _ List.mem_cons_self
  · intro hun r v hmem ha
    obtain ⟨before, rest, hsplit⟩ := List.append_of_mem hmem
    exact (hone before r v rest hsplit ha).2 (hun before r v rest hsplit ha)

/-- Nothing is in the way where every request of the pass would be granted. -/
theorem unobstructed_of_forall {l : ProcessResourceLimits}
    (hall : ∀ e ∈ l.calls, accepts e.1 (t e.1) (bothLimits e.2) = true) :
    l.Unobstructed accepts t := by
  intro before r v rest hsplit _
  refine .inr fun e he => hall e ?_
  rw [hsplit]
  exact List.mem_append_left _ he

end ProcessResourceLimits

/-- At `execvpe` each limit that was asked for, and would be granted on its own, is in force
    exactly if nothing ahead of it in the pass was in its way. -/
theorem Request.wrap_limits_iff {r : Request} {program : String} {args env : List String}
    {l : ProcessResourceLimits} (hl : (limitRules accepts).Lawful t h)
    (hat : r.wrap.At h (.execvpe program args env)) (hlimits : r.exec.processLimits = some l) :
    l.Enforced accepts t ((limitRules accepts).after t h) ↔ l.Unobstructed accepts t := by
  have hafter : r.exec.limitsAfter accepts t = setUntil accepts t l.requests := by
    rw [ExecutableSpec.limitsAfter, hlimits]
    rfl
  rw [Request.wrap_limits hl hat, hafter]
  exact ProcessResourceLimits.enforced_iff

end

/-! ## Under Linux -/

/-- `do_prlimit` of Linux: `privileged` is `CAP_SYS_RESOURCE`, and no process may have more than
    `nrOpen` files. -/
def linuxPolicy (privileged : Bool) (nrOpen : U64) : LimitPolicy := fun r old new =>
  decide (new.cur ≤ new.max ∧ (r = .nofile → new.max ≤ nrOpen) ∧
    (new.max ≤ old.max ∨ privileged = true))

/-- The limits a root shell is commonly started with. -/
def shellLimits : LimitTable
  | .nofile => ⟨1024, 524288⟩
  | _ => ⟨RLIM_INFINITY, RLIM_INFINITY⟩

/-- Every call succeeds that the rules allow to, in the child of a fork. -/
def limitAnswers (accepts : LimitPolicy) (t : LimitTable) : calls.Answers := fun h c =>
  match c with
  | .setrlimit r cur max =>
    if accepts r ((limitRules accepts).after t h r) ⟨cur, max⟩ then .ok ()
    else .error Errno.EPERM
  | .fork => .ok .child
  | c => c.success

theorem limitAnswers_lawful {accepts : LimitPolicy} {t : LimitTable} {h : List Event}
    (hf : Follows (limitAnswers accepts t) [] h) : (limitRules accepts).Lawful t h := by
  refine lawful_of_follows (t := t) (fun h c => ?_) hf
  cases c with
  | setrlimit r cur max =>
    by_cases ha : accepts r ((limitRules accepts).after t h r) ⟨cur, max⟩ = true
    · simp only [limitAnswers, if_pos ha]
      exact ha
    · simp only [limitAnswers, if_neg ha]
      exact ha
  | _ => exact trivial

/-- A program to run with at most 100 threads, and a limit on its open files or none. -/
def fewThreads (openFiles : Option U64) : CreateRequest :=
  { (default : CreateRequest) with
    exec :=
      { (default : ExecutableSpec) with
        executable := some "/bin/true"
        processLimits := some
          { (default : ProcessResourceLimits) with
            openFiles := openFiles
            threadLimit := some 100 } }
    namespaces := some [] }

/-- With a limit on the open files that root may set, both limits are in force. -/
theorem wrap_limits_few : ∃ h,
    (limitRules (linuxPolicy true 1048576)).Lawful shellLimits h ∧
      (Request.create (fewThreads (some 1024))).wrap.At h
        (.execvpe "/bin/true" ["/bin/true"] []) ∧
      ProcessResourceLimits.Enforced
        { (default : ProcessResourceLimits) with openFiles := some 1024, threadLimit := some 100 }
        (linuxPolicy true 1048576) shellLimits
        ((limitRules (linuxPolicy true 1048576)).after shellLimits h) := by
  obtain ⟨h, hat, hf⟩ := at_of_makes (p := (Request.create (fewThreads (some 1024))).wrap)
    (c := .execvpe "/bin/true" ["/bin/true"] [])
    (ω := limitAnswers (linuxPolicy true 1048576) shellLimits) (by decide)
  have hl := limitAnswers_lawful hf
  refine ⟨h, hl, hat, (Request.wrap_limits_iff hl hat rfl).2 ?_⟩
  exact ProcessResourceLimits.unobstructed_of_forall (by decide)

/-- Without one, not even root may have unlimited files, and the limit on the threads, which
    anyone may set, is lost. -/
theorem wrap_limits_lost : ∃ h,
    (limitRules (linuxPolicy true 1048576)).Lawful shellLimits h ∧
      (Request.create (fewThreads none)).wrap.At h (.execvpe "/bin/true" ["/bin/true"] []) ∧
      ¬ ProcessResourceLimits.Enforced
        { (default : ProcessResourceLimits) with threadLimit := some 100 }
        (linuxPolicy true 1048576) shellLimits
        ((limitRules (linuxPolicy true 1048576)).after shellLimits h) := by
  obtain ⟨h, hat, hf⟩ := at_of_makes (p := (Request.create (fewThreads none)).wrap)
    (c := .execvpe "/bin/true" ["/bin/true"] [])
    (ω := limitAnswers (linuxPolicy true 1048576) shellLimits) (by decide)
  have hl := limitAnswers_lawful hf
  refine ⟨h, hl, hat, fun henf => ?_⟩
  rw [Request.wrap_limits hl hat] at henf
  exact absurd (henf .nproc 100 (by decide) (by decide)) (by decide)

end Styrolite
