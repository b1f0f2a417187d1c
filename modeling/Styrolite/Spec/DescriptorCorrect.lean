import Styrolite.Spec.Request

/-!
# Descriptors

What the workload holds of the descriptors styrolite has opened. Every one is
close-on-exec, or is dropped by the function that opened it, but the two eventfds
of the handshake: they are made with `EFD_SEMAPHORE` alone, and `wrap` holds them
to its end.

## Key results

- `wrap_opens`: whatever is opened on the way to any call, eventfds apart, is
  close-on-exec
- `wrap_sealed_iff`: nothing leaks into the workload of an `AttachRequest`, and the
  eventfds do into that of a `CreateRequest`
-/

namespace Styrolite

open Prog Kernel

/-- The flag of `eventfd(2)` that closes the descriptor in `execve`. -/
def EFD_CLOEXEC : Nat := 0x80000

/-- Who drops a descriptor: a function that has returned by the time of `execvpe`, or `wrap`,
    which has not. -/
inductive Holder where
  | callee | wrap
  deriving DecidableEq, Repr

/-- An open descriptor: what it is of, and whether `execve` closes it. -/
structure Descriptor where
  holder : Holder
  closeOnExec : Bool
  deriving DecidableEq, Repr

/-- The descriptor that the event opened. `std::fs` and `pidfd_open` open theirs
    close-on-exec. -/
def opened (e : Event) : Option Descriptor :=
  match e with
  | ⟨.fsWrite _ _, _⟩ | ⟨.procWrite _ _, _⟩ | ⟨.fsFileCreate _, .ok ()⟩
  | ⟨.fsReadToString _, _⟩ | ⟨.fsReadDir _, .ok _⟩ | ⟨.fsOpenWrite _, .ok ()⟩
  | ⟨.pidfdOpen _, .ok ()⟩ => some { holder := .callee, closeOnExec := true }
  | ⟨.openTree _ flags, .ok _⟩ =>
    some { holder := .callee, closeOnExec := flags &&& OPEN_TREE_CLOEXEC ≠ 0 }
  | ⟨.eventfd _ _ flags, .ok ()⟩ =>
    some { holder := .wrap, closeOnExec := flags &&& EFD_CLOEXEC ≠ 0 }
  | _ => none

/-- At `execvpe` the descriptor is closed, or it is close-on-exec. -/
def Descriptor.Sealed (d : Descriptor) : Prop := d.holder = .callee ∨ d.closeOnExec = true

/-- No descriptor that was opened in the history leaks into the workload. -/
def Sealed (h : List Event) : Prop := ∀ e ∈ h, ∀ d, opened e = some d → d.Sealed

/-! ## Close-on-exec -/

/-- If the call opens a mount tree, it opens it close-on-exec. -/
def Call.tight (c : Call) : Prop :=
  ∀ path flags, c = .openTree path flags → flags = OPEN_TREE_CLOEXEC

/-- A call that is no mount is tight. -/
theorem Call.tight_of_kind {c : Call} (hk : c.kind ≠ .mount) : c.tight := by
  rintro path flags rfl
  exact absurd rfl hk

/-- A program that makes no such call is tight. -/
theorem tight_of_uses {α : Type} {p : Sys α} {ks : List Call.Kind} (hp : p.Uses (Call.within ks))
    (hks : Call.Kind.mount ∉ ks) : p.Uses Call.tight :=
  hp.mono fun _ hc => Call.tight_of_kind fun heq => hks (heq ▸ hc)

/-- What a tight call opens is closed in `execve`, if it is no eventfd. -/
theorem closeOnExec_of_tight {e : Event} {d : Descriptor} (he : e.call.tight)
    (hk : e.call.kind ≠ .eventfd) (hd : opened e = some d) : d.closeOnExec = true := by
  unfold opened at hd
  split at hd
  all_goals first | cases hd; rfl | skip
  · next path flags _ =>
    cases hd
    obtain rfl := he path flags rfl
    rfl
  · exact absurd rfl hk
  · cases hd

/-! ## The child -/

/-- The call neither opens a mount tree nor writes a file by its path. -/
def Call.plain : Call → Bool
  | .openTree _ _ | .fsWrite _ _ => false
  | _ => true

/-- A mount tree is opened close-on-exec, and no file is written by its path. -/
def Call.modest (c : Call) : Prop := c.tight ∧ ∀ path text, c ≠ .fsWrite path text

/-- A plain call is modest. -/
theorem Call.modest_of_plain {c : Call} (hc : c.plain = true) : c.modest := by
  refine ⟨fun path flags heq => ?_, fun path text heq => ?_⟩ <;>
  · rw [heq] at hc
    cases hc

/-- A single plain call is modest. -/
theorem uses_sys_modest {c : Call} (hc : c.plain = true) :
    Prog.Uses (α := no_index c.Answer) Call.modest (sys c) :=
  Uses.sys (I := calls) (Call.modest_of_plain hc)

/-- What makes calls of other kinds only. -/
theorem modest_of_uses {α : Type} {p : Sys α} {ks : List Call.Kind} (hp : p.Uses (Call.within ks))
    (hks : ∀ k ∈ ks, k ≠ .mount ∧ k ≠ .file) : p.Uses Call.modest :=
  hp.mono fun c hc => ⟨Call.tight_of_kind (hks c.kind hc).1, fun path text heq =>
    (hks c.kind hc).2 (by rw [heq]; rfl)⟩

/-- Setting attributes is modest. -/
theorem mountSetattr_modest (dir : DirFd) (path : String) (flags : CInt) (attr : MountAttr) :
    (mountSetattr dir path flags attr).Uses Call.modest :=
  .bind (.check _ _) fun _ => .bind (uses_sys_modest rfl) fun _ => .check _ _

namespace MountSpec

/-- Making a target is modest. -/
theorem createTarget_modest (spec : MountSpec) : spec.createTarget.Uses Call.modest := by
  unfold createTarget sourceIsFile
  refine .bind ?_ fun b => ?_
  · split
    · refine .bind (uses_sys_modest rfl) fun r => ?_
      split <;> exact .pure _
    · exact .pure _
  · split
    · exact .bind (.whenSome fun _ _ => .bind (uses_sys_modest rfl) fun _ => .check _ _) fun _ =>
        .bind (uses_sys_modest rfl) fun _ => .check _ _
    · exact .bind (uses_sys_modest rfl) fun _ => .check _ _

/-- A mount is modest. -/
theorem mount_modest (spec : MountSpec) : spec.mount.Uses Call.modest := by
  unfold mount
  refine .bind (.check _ _) fun target => .bind (.when fun _ => ?_) fun _ => .bind ?_ fun data =>
    .bind (uses_sys_modest rfl) fun r => .bind (.mapErr (.check _ _)) fun _ =>
      .when fun _ => mountSetattr_modest _ _ _ _
  · exact spec.createTarget_modest
  · unfold dataArg
    split
    · exact .pure _
    · rw [map_eq_pure_bind]
      exact .bind (.mapErr (.check _ _)) fun _ => .pure _

/-- The one place where a mount tree is opened. -/
theorem sealMount_modest (spec : MountSpec) : spec.sealMount.Uses Call.modest := by
  unfold sealMount
  split
  · exact .fail _
  · refine .bind (.bind (.check _ _) fun _ => .bind ?_ fun _ => .check _ _) fun _ =>
      mountSetattr_modest _ _ _ _
    exact Uses.sys (I := calls) ⟨fun path flags heq => (by cases heq; rfl),
      fun path text heq => by cases heq⟩

/-- The pivot is modest. -/
theorem pivot_modest (spec : MountSpec) : spec.pivot.Uses Call.modest :=
  .bind (uses_sys_modest rfl) fun _ => .bind (.check _ _) fun _ =>
    .bind (uses_sys_modest rfl) fun _ => .bind (.mapErr (.check _ _)) fun _ =>
    .bind (uses_sys_modest rfl) fun _ => .bind (.mapErr (.check _ _)) fun _ =>
    .bind (uses_sys_modest rfl) fun _ => .check _ _

end MountSpec

/-- Masking a path is modest. -/
theorem maskPath_modest (rootfs path : String) : (maskPath rootfs path).Uses Call.modest := by
  refine .bind (uses_sys_modest rfl) fun r => ?_
  split
  · exact MountSpec.mount_modest _
  · split
    · exact .pure _
    · exact .fail _

/-- Making a path read-only is modest. -/
theorem makeReadonly_modest (rootfs path : String) : (makeReadonly rootfs path).Uses Call.modest := by
  refine .bind (uses_sys_modest rfl) fun r => ?_
  split
  · exact MountSpec.mount_modest _
  · split
    · exact .pure _
    · exact .fail _

/-- Staging a profile is modest. -/
theorem changeOnexec_modest (profile : String) : (changeOnexec profile).Uses Call.modest := by
  refine .bind (uses_sys_modest rfl) fun r => ?_
  split
  · exact .bind (uses_sys_modest rfl) fun _ => .check _ _
  · split
    · exact .bind (uses_sys_modest rfl) fun _ => .bind (.check _ _) fun _ =>
        .bind (uses_sys_modest rfl) fun _ => .check _ _
    · exact .fail _

/-- `execute` is modest. -/
theorem ExecutableSpec.execute_modest (exec : ExecutableSpec) :
    exec.execute.Uses Call.modest := by
  unfold execute
  refine .bind (uses_sys_modest rfl) fun _ => .bind (.check _ _) fun _ =>
    .bind (.check _ _) fun _ => .bind (.check _ _) fun _ => .bind (.check _ _) fun _ =>
    .bind (.whenSome fun _ _ => .bind (uses_sys_modest rfl) fun _ => .check _ _) fun _ =>
    .bind (.when fun _ => modest_of_uses setNoNewPrivs_uses (by decide)) fun _ =>
    .bind (modest_of_uses exec.installSeccomp_uses (by decide)) fun _ =>
    .bind (.whenSome fun _ _ => .mapErr (changeOnexec_modest _)) fun _ =>
    .bind (modest_of_uses resetSigpipe_uses (by decide)) fun _ =>
    .bind (uses_sys_modest rfl) fun r => ?_
  split
  · exact .pure _
  · exact .fail _

namespace CreateRequest

variable (req : CreateRequest)

/-- A mutation is modest. -/
theorem mutate_modest (rootfs : String) (m : Mutation) :
    (mutate rootfs m).Uses Call.modest := by
  cases m
  unfold mutate
  exact .mapErr (.bind (uses_sys_modest rfl) fun _ => .check _ _)

/-- Staging the root is modest. -/
theorem stageRootfs_modest (rootfs wid₁ wid₂ wid₃ : String) :
    (stageRootfs rootfs wid₁ wid₂ wid₃).Uses Call.modest := by
  unfold stageRootfs
  split
  · exact .bind (.mapErr (MountSpec.mount_modest _)) fun _ =>
      .bind (uses_sys_modest rfl) fun _ => .bind (.mapErr (.check _ _)) fun _ =>
      .bind (uses_sys_modest rfl) fun _ => .bind (.mapErr (.check _ _)) fun _ =>
      .bind (.mapErr (MountSpec.mount_modest _)) fun _ => .pure _
  · exact .pure _

/-- `pivot_fs` is modest. -/
theorem pivotFs_modest : req.pivotFs.Uses Call.modest := by
  have hid : req.identity.Uses Call.modest := modest_of_uses req.identity_uses (by decide)
  exact .bind (uses_sys_modest rfl) fun _ => .bind (.check _ _) fun rootfs =>
    .bind (.mapErr (MountSpec.mount_modest _)) fun _ => .bind hid fun _ => .bind hid fun _ =>
    .bind hid fun _ => .bind (stageRootfs_modest _ _ _ _) fun root =>
    .bind (.mapErr (MountSpec.mount_modest _)) fun _ =>
    .bind (.when fun _ => .mapErr (MountSpec.sealMount_modest _)) fun _ =>
    .bind (.mapErr (MountSpec.mount_modest _)) fun _ =>
    .bind (.forM fun _ _ => .mapErr (MountSpec.mount_modest _)) fun _ =>
    .bind (.forM fun _ _ => mutate_modest _ _) fun _ =>
    .bind (.forM fun _ _ => .mapErr (maskPath_modest _ _)) fun _ =>
    .bind (.forM fun _ _ => .mapErr (makeReadonly_modest _ _)) fun _ =>
    .mapErr (MountSpec.pivot_modest _)

/-- Binding the terminal is modest. -/
theorem bindConsole_modest (execUid : UInt32) (ttyFd : Nat) :
    (bindConsole execUid ttyFd).Uses Call.modest := by
  refine .bind (uses_sys_modest rfl) fun _ => .bind (.mapErr (.check _ _)) fun _ =>
    .bind (uses_sys_modest rfl) fun _ =>
    .bind (.when fun _ => .bind (uses_sys_modest rfl) fun _ => .mapErr (.check _ _)) fun _ =>
    .bind (.mapErr (MountSpec.mount_modest _)) fun _ => .bind (uses_sys_modest rfl) fun r => ?_
  split
  · exact .pure _
  · split
    · exact .pure _
    · exact .fail _

/-- The console is set up by modest calls. -/
theorem setupConsole_modest (uid : Option UInt32) : (setupConsole uid).Uses Call.modest :=
  .bind (uses_sys_modest rfl) fun _ => .whenSome fun _ _ =>
    .bind (modest_of_uses (findTty_uses _) (by decide)) fun _ => .whenSome fun _ _ =>
    bindConsole_modest _ _

/-- All that the child does is modest. -/
theorem childMain_modest : req.childMain.Uses Call.modest := by
  have hpivot : req.pivotIfMount.Uses Call.modest := .when fun _ => req.pivotFs_modest
  have hstage : req.stage.Uses Call.modest :=
    .when fun _ => .bind hpivot fun _ => .when fun _ => modest_of_uses (unshare_uses _) (by decide)
  have hsignal : req.childSignal.Uses Call.modest :=
    .bind (modest_of_uses (orExit_uses resetChildSignalHandlers_uses) (by decide)) fun _ =>
      .bind hstage fun _ => .bind (uses_sys_modest rfl) fun _ => .bind (.check _ _) fun _ =>
      .pure _
  have hrest : req.childRest.Uses Call.modest :=
    .bind (.when fun _ => hpivot) fun _ =>
      .bind (modest_of_uses (applyOomScore_uses _) (by decide)) fun _ =>
      .bind (setupConsole_modest _) fun _ =>
      .bind (modest_of_uses (preexecPrep_uses _ _) (by decide)) fun _ =>
      req.exec.execute_modest
  exact .bind hsignal fun _ => .bind (uses_sys_modest rfl) fun _ => .bind (.check _ _) fun _ =>
    hrest

/-- The wrap of a create request is tight. -/
theorem wrap_tight : req.wrap.Uses Call.tight := by
  refine .bind (tight_of_uses req.prologue_uses (by decide)) fun _ =>
    .bind (Uses.sys (I := calls) fun _ _ heq => by cases heq) fun r =>
    .bind (.check _ _) fun x => ?_
  cases x with
  | parent child => exact tight_of_uses (req.supervise_uses child) (by decide)
  | child => exact req.childMain_modest.mono fun _ hc => hc.1

/-- Before `execvpe` both eventfds were made. -/
theorem wrap_eventfd {h : List Event} {program : String} {args env : List String}
    (hat : req.wrap.At h (.execvpe program args env)) :
    (⟨.eventfd .child 0 EFD_SEMAPHORE, .ok ()⟩ : Event) ∈ h := by
  have hk : (Call.execvpe program args env).kind ∈ [.exec] := by simp [Call.kind]
  -- The `execvpe` comes after the prologue, which has made the eventfd
  obtain ⟨⟨⟩, h₀, _, hpro, -, rfl⟩ := req.prologue_uses.at_past (by decide) hk hat
  obtain ⟨h₁, h₂, rfl, -, hset⟩ := prologue_runs hpro
  have hmade := hset.ranIn
  obtain ⟨_, -, hmade⟩ := hmade.bind
  obtain ⟨_, -, hmade⟩ := hmade.bind
  obtain ⟨_, -, hmade⟩ := hmade.bind
  obtain ⟨_, -, hmade⟩ := hmade.bind
  obtain ⟨_, -, hmade⟩ := hmade.bind
  obtain ⟨_, -, hmade⟩ := hmade.bind
  obtain ⟨r, hmem, hok⟩ := mem_of_checked hmade
  obtain rfl := hok
  simp [hmem]

end CreateRequest

/-- The kinds of call that the wrap of an attach request makes. -/
theorem AttachRequest.wrap_uses (req : AttachRequest) :
    req.wrap.Uses (Call.within [.env, .file, .ns, .rlimit, .oom, .signal, .fork, .enterLate, .wait,
      .cred, .confine, .exec]) :=
  .bind (req.prologue_uses.widen (by decide)) fun _ => .bind (uses_sys _ rfl) fun r =>
    (req.afterFork_uses r).widen (by decide)

variable {r : Request} {root pid : Int} {s₀ : World} {cfg : Config calls Int World Err Unit}
  {h : List Event} {q : Sys Unit}

/-- Whatever descriptor a process of either `wrap` has opened is an eventfd or close-on-exec. -/
theorem wrap_opens (hr : linux.Reachable root r.wrap s₀ cfg) (hproc : cfg.procs pid = some ⟨h, q⟩)
    {e : Event} (he : e ∈ h) {d : Descriptor} (hd : opened e = some d) :
    e.call.kind = .eventfd ∨ d.closeOnExec = true := by
  by_cases hk : e.call.kind = .eventfd
  · exact .inl hk
  · have htight : r.wrap.Uses Call.tight := by
      cases r with
      | create req => exact req.wrap_tight
      | attach req => exact tight_of_uses req.wrap_uses (by decide)
    exact .inr (closeOnExec_of_tight (htight.mem (hr.reaches hproc) he) hk hd)

/-! ## Main theorem -/

/-- At `execvpe` every descriptor that was opened is closed or close-on-exec if and only if the
    request is one to attach. -/
theorem wrap_sealed_iff {program : String} {args env : List String}
    {k : Except Errno Unit → Sys Unit} (hr : linux.Reachable root r.wrap s₀ cfg)
    (hproc : cfg.procs pid = some ⟨h, .call (I := calls) (.execvpe program args env) k⟩) :
    Sealed h ↔ ∃ req, r = .attach req := by
  constructor
  · intro hsealed
    cases r with
    | create req =>
      -- The eventfd that is left open is the child's, which the workload inherits
      have hmem := req.wrap_eventfd ⟨k, hr.reaches hproc⟩
      rcases hsealed _ hmem _ rfl with hheld | hclosed
      · cases hheld
      · exact absurd hclosed (by decide)
    | attach req => exact ⟨req, rfl⟩
  · intro hreq e he d hd
    obtain ⟨req, rfl⟩ := hreq
    -- an attaching process makes no eventfd
    have hk : e.call.kind ∈ _ := req.wrap_uses.mem (e := e) (hr.reaches hproc) he
    rcases wrap_opens hr hproc he hd with heq | hclosed
    · rw [heq] at hk
      exact absurd hk (by decide)
    · exact .inr hclosed

/-- A program to run in the namespaces of a container. -/
def AttachRequest.simple (nss : List Namespace) : AttachRequest :=
  { (default : AttachRequest) with
    pid := 1
    exec := { (default : ExecutableSpec) with executable := some "/bin/true" }
    namespaces := some nss }

/-- Nothing leaks into a workload that is started in a container. -/
theorem wrap_sealed_attach : ∃ cfg h k,
    linux.Reachable 1 (Request.attach (.simple [.mount])).wrap .fresh cfg ∧
      cfg.procs 2 = some ⟨h, .call (I := calls) (.execvpe "/bin/true" ["/bin/true"] []) k⟩ ∧
      Sealed h := by
  obtain ⟨cfg, h, k, hr, hproc⟩ := AttachRequest.comes_to_of_comesTo succeeding (.simple [.mount]) 1 2
    .fresh (.execvpe "/bin/true" ["/bin/true"] []) (by decide) (by decide)
  have hr' := linux_of_under hr
  exact ⟨cfg, h, k, hr', hproc, (wrap_sealed_iff (r := .attach _) hr' hproc).2 ⟨_, rfl⟩⟩

/-- The eventfds of the handshake leak into the workload of a new container. -/
theorem wrap_not_sealed : ∃ cfg h k,
    linux.Reachable 1 (Request.create (.simple [.mount])).wrap .fresh cfg ∧
      cfg.procs 2 = some ⟨h, .call (I := calls) (.execvpe "/bin/true" ["/bin/true"] []) k⟩ ∧
      ¬ Sealed h := by
  obtain ⟨cfg, h, k, hr, hproc⟩ := CreateRequest.comes_to_of_comesTo succeeding (.simple [.mount]) 1 2
    .fresh (.execvpe "/bin/true" ["/bin/true"] []) (by decide) (by decide)
  have hr' := linux_of_under hr
  refine ⟨cfg, h, k, hr', hproc, fun hsealed => ?_⟩
  rcases hsealed _ (CreateRequest.wrap_eventfd _ ⟨k, hr'.reaches hproc⟩) _ rfl with hheld | hclosed
  · cases hheld
  · exact absurd hclosed (by decide)

end Styrolite
