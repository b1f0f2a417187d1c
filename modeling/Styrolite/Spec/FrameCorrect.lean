import Styrolite.Spec.Schedule

/-!
# What is left alone

A `wrap` that was not asked for a mount namespace mounts over the caller's
`/dev/console` where the workload has a user id and a terminal, and one that was
not asked for a UTS namespace sets the caller's hostname. These are the only two
steps that reach outside.
-/

namespace Styrolite

open Prog Kernel

/-- Linux, with the terminals among the descriptors of the caller given. -/
def withTerminals (tty : Nat → Bool) : Kernel calls Int World :=
  linux.restrict fun _ _ _ c a => ∀ fd b, (⟨c, a⟩ : Event) = ⟨.isatty fd, b⟩ → b = tty fd

/-- The kinds of calls that change a mount table. -/
def mountKinds : List Call.Kind := [.mount, .pivot]

theorem cString_eq_ok {s t : String} : cString s = .ok t ↔ Char.ofNat 0 ∉ s.toList ∧ s = t := by
  unfold cString
  split
  · next hc => simp [List.contains_iff_mem.1 hc]
  · next hc =>
    have hno : Char.ofNat 0 ∉ s.toList := fun hm => hc (List.contains_iff_mem.2 hm)
    simp [hno]

/-! ## The console -/

theorem findTty_some {fds : List Nat} {fd : Nat} {h : List Event}
    (hr : (findTty fds).Runs h (.ok (some fd))) : fd ∈ fds ∧ (⟨.isatty fd, true⟩ : Event) ∈ h := by
  induction fds generalizing h with
  | nil => exact nomatch (runs_pure.1 hr).2
  | cons fd' fds ih =>
    obtain ⟨tty, h', rfl, hr'⟩ := runs_sys_bind.1 hr
    cases tty with
    | true =>
      obtain ⟨rfl, heq⟩ := runs_pure.1 hr'
      cases heq
      exact ⟨List.mem_cons_self, List.mem_cons_self⟩
    | false =>
      obtain ⟨hfd, hm⟩ := ih hr'
      exact ⟨List.mem_cons_of_mem _ hfd, List.mem_cons_of_mem _ hm⟩

theorem findTty_none {fds : List Nat} {h : List Event} (hr : (findTty fds).Runs h (.ok none)) :
    ∀ fd ∈ fds, (⟨.isatty fd, false⟩ : Event) ∈ h := by
  induction fds generalizing h with
  | nil => exact fun _ hfd => absurd hfd List.not_mem_nil
  | cons fd' fds ih =>
    obtain ⟨tty, h', rfl, hr'⟩ := runs_sys_bind.1 hr
    cases tty with
    | true => exact nomatch (runs_pure.1 hr').2
    | false =>
      intro fd hfd
      rcases List.mem_cons.1 hfd with rfl | hfd
      · exact List.mem_cons_self
      · exact List.mem_cons_of_mem _ (ih hr' fd hfd)

/-- The console is bound only for a workload with a user id and a terminal. -/
theorem setupConsole_at_mount {uid : Option UInt32} {h : List Event} {c : Call}
    (hat : (setupConsole uid).At h c) (hc : c.kind ∈ mountKinds) :
    uid ≠ none ∧ ∃ fd ∈ [0, 1, 2], (⟨.isatty fd, true⟩ : Event) ∈ h := by
  rcases at_sys_bind.1 hat with ⟨-, rfl⟩ | ⟨_, h', rfl, hat'⟩
  · simp [Call.kind, mountKinds] at hc
  · obtain ⟨execUid, rfl, hat''⟩ := at_whenSome.1 hat'
    obtain ⟨tty, h₁, h₂, htty, hat₃, rfl⟩ := (findTty_uses _).at_past (by decide) hc hat''
    obtain ⟨fd, rfl, -⟩ := at_whenSome.1 hat₃
    obtain ⟨hfd, hm⟩ := findTty_some htty
    exact ⟨by simp, fd, hfd, by simp [hm]⟩

/-- A mount that is carried out makes a call. -/
theorem mount_mounts {spec : MountSpec} {h : List Event} (hr : spec.mount.RanIn h ()) :
    ∃ e ∈ h, e.call.kind = .mount := by
  obtain ⟨target, -, hr⟩ := hr.bind
  obtain ⟨-, -, hr⟩ := hr.bind
  obtain ⟨data, -, hr⟩ := hr.bind
  obtain ⟨r, hm, -⟩ := hr.bind
  exact ⟨_, ranIn_sys hm, rfl⟩

theorem bindConsole_mounts {execUid : UInt32} {ttyFd : Nat} {h : List Event}
    (hr : (bindConsole execUid ttyFd).RanIn h ()) : ∃ e ∈ h, e.call.kind = .mount := by
  obtain ⟨_, -, hr⟩ := hr.bind
  obtain ⟨_, -, hr⟩ := hr.bind
  obtain ⟨_, -, hr⟩ := hr.bind
  obtain ⟨_, -, hr⟩ := hr.bind
  obtain ⟨_, hm, -⟩ := hr.bind
  exact mount_mounts hm.mapErr

/-- For a workload with a user id and a terminal, the console is bound. -/
theorem setupConsole_mounts {uid : Option UInt32} {h : List Event}
    (hr : (setupConsole uid).Runs h (.ok ())) (huid : uid ≠ none) {fd : Nat}
    (hfd : fd ∈ [0, 1, 2]) (hno : (⟨.isatty fd, false⟩ : Event) ∉ h) :
    ∃ e ∈ h, e.call.kind = .mount := by
  obtain ⟨execUid, rfl⟩ := Option.ne_none_iff_exists'.1 huid
  obtain ⟨_, h', rfl, hr'⟩ := runs_sys_bind.1 hr
  obtain ⟨tty, h₁, h₂, hfind, hbind, rfl⟩ := runs_bind_ok.1 hr'
  cases tty with
  | none => exact absurd (by simp [findTty_none hfind fd hfd]) hno
  | some ttyFd =>
    obtain ⟨e, he, hk⟩ := bindConsole_mounts (Runs.ranIn hbind)
    exact ⟨e, by simp [he], hk⟩

/-! ## The hostname -/

namespace CreateRequest

variable {req : CreateRequest} {root child : Int} {s₀ : World} {tty : Nat → Bool}
  {cfg : Config calls Int World Err Unit} {h : List Event} {c : Call}

/-- The name to set contains a NUL character, so that it is not set. -/
def HostnameRejected (req : CreateRequest) : Prop :=
  ∃ text, req.hostname.or req.workloadId = some text ∧ Char.ofNat 0 ∈ text.toList

/-- The name to set. -/
def finalHostname (req : CreateRequest) (pid : Nat) : String :=
  req.hostname.getD ("styrolite-" ++ req.workloadId.getD (toString pid))

theorem nul_mem_finalHostname (pid : Nat) :
    Char.ofNat 0 ∈ (req.finalHostname pid).toList ↔ req.HostnameRejected := by
  have hstart : Char.ofNat 0 ∉ "styrolite-".toList := by decide
  have hdigits : Char.ofNat 0 ∉ (toString pid).toList := by
    intro hm
    have hm' : Char.ofNat 0 ∈ Nat.toDigits 10 pid := by simpa using hm
    exact absurd (Nat.isDigit_of_mem_toDigits (by decide) (by decide) hm') (by decide)
  unfold finalHostname HostnameRejected
  cases req.hostname with
  | some name => simp
  | none =>
    cases req.workloadId with
    | some wid => simp
    | none => simpa [hstart] using hdigits

/-- The hostname is set only if it is a C string. -/
theorem updateHostname_at_uts (hat : req.updateHostname.At h c) (hc : c.kind = .uts) :
    ¬ req.HostnameRejected := by
  have hk : c.kind ∈ [.uts] := by simp [hc]
  obtain ⟨wid, h₁, h₂, hid, hat₁, rfl⟩ := req.identity_uses.at_past (by decide) hk hat
  obtain ⟨pid, _, _, hpid, hwid, rfl⟩ := runs_bind_ok.1 hid
  obtain ⟨-, heq⟩ := runs_pure.1 hwid
  cases heq
  rcases at_bind.1 hat₁ with hat₂ | ⟨cstr, h₃, h₄, hcstr, -, -⟩
  · exact absurd (at_mapErr.1 hat₂) not_at_orFail
  · obtain ⟨-, hok⟩ := runs_orFail_ok.1 (runs_mapErr_ok.1 hcstr)
    rw [← nul_mem_finalHostname (pid : Nat)]
    exact (cString_eq_ok.1 hok).1

/-- A name that is a C string is passed to the kernel. -/
theorem updateHostname_sets {r : Except Err Unit} (hr : (attempt req.updateHostname).Runs h (.ok r))
    (hok : ¬ req.HostnameRejected) : ∃ e ∈ h, e.call.kind = .uts := by
  obtain ⟨r', hr'⟩ : ∃ r', req.updateHostname.Runs h r' := by
    rcases runs_attempt_ok.1 hr with ⟨_, -, hrun⟩ | ⟨_, -, hrun⟩
    · exact ⟨_, hrun⟩
    · exact ⟨_, hrun⟩
  unfold updateHostname identity at hr'
  rw [bind_assoc] at hr'
  obtain ⟨pid, h', rfl, hr''⟩ := runs_sys_bind.1 hr'
  have hname : cString (req.finalHostname pid) = .ok (req.finalHostname pid) :=
    cString_eq_ok.2 ⟨fun hm => hok ((nul_mem_finalHostname pid).1 hm), rfl⟩
  change Runs ((orFail (cString (req.finalHostname pid))).mapErr _ >>= _) h' r' at hr''
  rw [hname] at hr''
  obtain ⟨a, h'', rfl, -⟩ := runs_sys_bind.1 hr''
  exact ⟨_, List.mem_cons_of_mem _ List.mem_cons_self, rfl⟩

/-! ## Where the calls of a run are -/

/-- Each call of a run is one of the prologue, the fork, or one of either half. -/
theorem trace_cases (hr : linux.Reachable root req.wrap s₀ cfg) {pid : Int} {e : Event}
    (he : (pid, e) ∈ cfg.trace) :
    (∃ h, req.prologue.At h e.call) ∨ e.call = .fork ∨ (∃ child h, (req.supervise child).At h e.call) ∨
      ∃ h, req.childMain.At h e.call ∧ ∀ e' ∈ h, ∃ pid, (pid, e') ∈ cfg.trace := by
  rcases wrap_cases hr with ⟨h, q, hsolo⟩ | ⟨child, h₀, h₁, h₂, p₁, p₂, hp⟩
  · -- No fork yet: the history is the prologue's
    rw [hsolo.trace] at he
    obtain ⟨e', he', heq⟩ := List.mem_map.1 he
    cases heq
    rcases solo_event hsolo he' with ⟨h', hat⟩ | heq
    · exact .inl ⟨h', hat⟩
    · exact .inr (.inl heq)
  · -- After the fork the trace mixes three histories and the two answers of the fork
    rw [hp.trace.mem_iff] at he
    simp only [List.mem_append, List.mem_cons, List.mem_map] at he
    rcases he with ⟨e', he', heq⟩ | heq | heq | ⟨e', he', heq⟩ | ⟨e', he', heq⟩
    · cases heq
      obtain ⟨h₃, h₄, rfl⟩ := List.append_of_mem he'
      exact .inl ⟨h₃, hp.prologue.at_of_split⟩
    · cases heq
      exact .inr (.inl rfl)
    · cases heq
      exact .inr (.inl rfl)
    · cases heq
      obtain ⟨h₃, h₄, rfl⟩ := List.append_of_mem he'
      exact .inr (.inr (.inl ⟨child, h₃, hp.rootReaches.at_of_split⟩))
    · cases heq
      obtain ⟨h₃, h₄, rfl⟩ := List.append_of_mem he'
      refine .inr (.inr (.inr ⟨h₃, hp.childReaches.at_of_split, fun e' he' => ⟨pid, ?_⟩⟩))
      rw [hp.trace.mem_iff]
      simp [he']

/-- Before the fork only `update_hostname` sets a hostname. -/
theorem prologue_at_uts (hat : req.prologue.At h c) (hc : c.kind = .uts) :
    ¬ req.HostnameRejected := by
  have hk : c.kind ∈ [.uts] := by simp [hc]
  obtain ⟨_, _, h₂, -, hat₁, rfl⟩ :=
    Uses.at_past (.attempt req.prepareCgroup_uses) (by decide) hk hat
  obtain ⟨⟨⟩, _, h₃, -, hat₂, rfl⟩ := (unshare_uses _).at_past (by decide) hk hat₁
  obtain ⟨_, _, h₄, -, hat₃, rfl⟩ := Uses.at_past (.attempt updateBoottime_uses) (by decide) hk hat₂
  rcases at_bind.1 hat₃ with hat₄ | ⟨_, _, h₅, -, hat₄, -⟩
  · exact updateHostname_at_uts (at_attempt.1 hat₄) hc
  · exact absurd hat₄ (req.setupTail_uses.not_at (by decide) hk)

/-- Mounts are the child's, in `pivot_fs` or for the console. -/
theorem childMain_at_mount (hat : req.childMain.At h c) (hc : c.kind ∈ mountKinds) :
    .mount ∈ req.targetNs ∨
      req.exec.uid ≠ none ∧ ∃ fd ∈ [0, 1, 2], (⟨.isatty fd, true⟩ : Event) ∈ h := by
  rcases at_bind.1 hat with hat₁ | ⟨⟨⟩, hs, _, -, hat₁, rfl⟩
  · -- up to the signal
    obtain ⟨⟨⟩, _, h₁, -, hat₂, rfl⟩ :=
      (orExit_uses resetChildSignalHandlers_uses).at_past (by decide) hc hat₁
    rcases at_bind.1 hat₂ with hat₃ | ⟨⟨⟩, _, h₂, -, hat₃, -⟩
    · rcases at_bind.1 (at_when.1 hat₃).2 with hat₄ | ⟨⟨⟩, _, h₃, -, hat₄, -⟩
      · exact .inl (at_when.1 hat₄).1
      · exact absurd (at_when.1 hat₄).2 ((unshare_uses _).not_at (by decide) hc)
    · simp only [at_sys_bind, at_check_bind, at_pure, and_false, exists_false, or_false] at hat₃
      rw [hat₃.2] at hc
      simp [Call.kind, mountKinds] at hc
  · -- after the release
    simp only [at_sys_bind, at_check_bind] at hat₁
    rcases hat₁ with ⟨-, rfl⟩ | ⟨_, h₁, rfl, n, rfl, hat₂⟩
    · simp [Call.kind, mountKinds] at hc
    rcases at_bind.1 hat₂ with hat₃ | ⟨⟨⟩, h₂, _, -, hat₃, rfl⟩
    · exact .inl (at_when.1 (at_when.1 hat₃).2).1
    obtain ⟨⟨⟩, h₃, _, -, hat₄, rfl⟩ := (applyOomScore_uses _).at_past (by decide) hc hat₃
    rcases at_bind.1 hat₄ with hat₅ | ⟨⟨⟩, _, h₄, -, hat₅, -⟩
    · obtain ⟨huid, fd, hfd, hm⟩ := setupConsole_at_mount hat₅ hc
      exact .inr ⟨huid, fd, hfd, by simp [hm]⟩
    · have huses : Uses (Call.within [.enterLate, .env, .cred, .file, .confine, .exec, .signal])
          (preexecPrep req.exec req.capabilities >>= fun _ => req.exec.execute) :=
        ((preexecPrep_uses req.exec req.capabilities).widen (by decide)).bind fun _ =>
          req.exec.execute_uses.widen (by decide)
      exact absurd hat₅ (huses.not_at (by decide) hc)

/-! ## Main theorem -/

/-- In the trace there is no mount where no mount namespace was requested, and no hostname is
    set where no UTS namespace was. -/
def Untouched (req : CreateRequest) (cfg : Config calls Int World Err Unit) : Prop :=
  (.mount ∉ req.targetNs → ∀ x ∈ cfg.trace, x.2.call.kind ∉ mountKinds) ∧
    (.uts ∉ req.targetNs → ∀ x ∈ cfg.trace, x.2.call.kind ≠ .uts)

/-- The console stays unbound and the hostname unset, or they are the container's own. -/
def StaysInside (req : CreateRequest) (tty : Nat → Bool) : Prop :=
  (.mount ∈ req.targetNs ∨ req.exec.uid = none ∨ ∀ fd ∈ [0, 1, 2], tty fd = false) ∧
    (.uts ∈ req.targetNs ∨ req.HostnameRejected)

/-- A call of `isatty` in the trace was answered as given. -/
private theorem isatty_answer (hr : (withTerminals tty).Reachable root req.wrap s₀ cfg)
    {pid : Int} {fd : Nat} {b : Bool} (he : (pid, (⟨.isatty fd, b⟩ : Event)) ∈ cfg.trace) :
    b = tty fd := by
  rcases hr.trace_allowed he with ⟨s, h, hallows⟩ | ⟨a, r, hspawn⟩
  · exact hallows.2 fd b rfl
  · exact nomatch hspawn

/-- A run that stays inside leaves the caller's mounts and hostname alone. -/
theorem untouched_of_staysInside (hr : (withTerminals tty).Reachable root req.wrap s₀ cfg)
    (hin : req.StaysInside tty) : req.Untouched cfg := by
  have hlin := Reachable.of_restrict _ hr
  refine ⟨fun hm x hx hk => ?_, fun hu x hx hk => ?_⟩
  · rcases trace_cases hlin hx with ⟨h, hat⟩ | heq | ⟨child, h, hat⟩ | ⟨h, hat, hall⟩
    · -- A mount: only the child makes any, the last for a console that is a terminal
      exact absurd hat (req.prologue_uses.not_at (by decide) hk)
    · rw [heq] at hk
      exact absurd hk (by decide)
    · exact absurd hat ((req.supervise_uses child).not_at (by decide) hk)
    · obtain ⟨huid, fd, hfd, hmem⟩ := (childMain_at_mount hat hk).resolve_left hm
      obtain ⟨pid, htrace⟩ := hall _ hmem
      have htty := isatty_answer hr htrace
      have hno := (hin.1.resolve_left hm).resolve_left huid fd hfd
      rw [hno] at htty
      exact nomatch htty
  · -- The hostname: only the prologue sets it
    have hk' : x.2.call.kind ∈ [.uts] := by simp [hk]
    rcases trace_cases hlin hx with ⟨h, hat⟩ | heq | ⟨child, h, hat⟩ | ⟨h, hat, -⟩
    · exact prologue_at_uts hat hk (hin.2.resolve_left hu)
    · rw [heq] at hk
      exact nomatch hk
    · exact absurd hat ((req.supervise_uses child).not_at (by decide) hk')
    · exact absurd hat (req.childMain_uses.not_at (by decide) hk')

/-- A run that has come to its workload and has left the caller's mounts and hostname alone
    stayed inside. -/
theorem staysInside_of_untouched (hr : (withTerminals tty).Reachable root req.wrap s₀ cfg)
    {pid : Int} {program : String} {args env : List String} {k : Except Errno Unit → Sys Unit}
    (hproc : cfg.procs pid = some ⟨h, .call (I := calls) (.execvpe program args env) k⟩)
    (hun : req.Untouched cfg) : req.StaysInside tty := by
  have hlin := Reachable.of_restrict _ hr
  obtain ⟨h₀, h₁, h₂, p₁, p₂, hp, -, hat⟩ :=
    late_cases hlin hproc (by simp [Call.kind, lateKinds])
  -- What either half has done is in the trace
  have hchild : ∀ e ∈ h₂, (pid, e) ∈ cfg.trace := by
    intro e he
    rw [hp.trace.mem_iff]
    simp [he]
  have hroot : ∀ e ∈ h₀, (root, e) ∈ cfg.trace := by
    intro e he
    rw [hp.trace.mem_iff]
    simp [he]
  constructor
  · by_contra hno
    simp only [not_or, not_forall] at hno
    obtain ⟨hm, huid, fd, hfd, htty⟩ := hno
    -- The console is set up before the workload is executed, and on a terminal that is a mount
    obtain ⟨hs, n, h', rfl, -, hrest⟩ := childMain_at_late hat (by simp [Call.kind, lateKinds])
    obtain ⟨hp', ho, hc, hq, he, rfl, -, -, hcr, -⟩ := childRest_at_exec hrest
    obtain ⟨e, hmem, hk⟩ := setupConsole_mounts hcr huid hfd fun hfalse =>
      htty (isatty_answer hr (hchild ⟨.isatty fd, false⟩ (by simp [hfalse]))).symm
    refine hun.1 hm _ (hchild e (by simp [hmem])) ?_
    simp [hk, mountKinds]
  · by_contra hno
    rw [not_or] at hno
    obtain ⟨hu, hok⟩ := hno
    -- The hostname is set in the prologue if it is one that can be
    obtain ⟨h₃, h₄, rfl, -, hset⟩ := prologue_runs hp.prologue
    obtain ⟨_, h₅, _, -, hset₁, rfl⟩ := runs_bind_ok.1 hset
    obtain ⟨r, h₆, h₇, hname, -, rfl⟩ := runs_bind_ok.1 hset₁
    obtain ⟨e, hmem, hk⟩ := updateHostname_sets hname hok
    exact hun.2 hu _ (hroot e (by simp [hmem])) hk

/-- When the caller's mounts and hostname are left alone. In every configuration of every run
    they are, if there is a mount namespace, or no user id, or no terminal, and if there is a
    UTS namespace or a name that is rejected; and in a run that has come to its workload they
    are only then. -/
theorem wrap_untouched_iff (hr : (withTerminals tty).Reachable root req.wrap s₀ cfg) :
    (req.StaysInside tty → req.Untouched cfg) ∧
      ((∃ pid h program args env k,
          cfg.procs pid = some ⟨h, .call (I := calls) (.execvpe program args env) k⟩) →
        req.Untouched cfg → req.StaysInside tty) :=
  ⟨untouched_of_staysInside hr,
    fun ⟨_, _, _, _, _, _, hproc⟩ => staysInside_of_untouched hr hproc⟩

/-- A request with a user id. -/
def withUid (nss : List Namespace) : CreateRequest :=
  { simple nss with exec := { (simple nss).exec with uid := some 1000 } }

/-- Every call succeeds, and the standard input is a terminal. -/
def onTerminal : calls.Answers := answering (.isatty 0) true

private theorem onTerminal_runs {req : CreateRequest}
    (hr : (linux.under onTerminal).Reachable root req.wrap s₀ cfg) :
    (withTerminals (· = 0)).Reachable root req.wrap s₀ cfg := by
  refine Reachable.restrict_mono linux (fun s pid h c a heq fd b hev => ?_) hr
  cases hev
  rw [heq]
  by_cases hfd : fd = 0
  · subst hfd
    rfl
  · simp [onTerminal, answering, Call.success, hfd]

/-- With both namespaces, a workload with a terminal and a user id leaves the caller's alone. -/
theorem wrap_untouched_inside : ∃ cfg h k,
    (withTerminals (· = 0)).Reachable 1 (withUid [.mount, .uts]).wrap .fresh cfg ∧
      cfg.procs 2 = some ⟨h, .call (I := calls) (.execvpe "/bin/true" ["/bin/true"] []) k⟩ ∧
      (withUid [.mount, .uts]).Untouched cfg := by
  obtain ⟨cfg, h, k, hr, hproc⟩ := childRest_comes_to
    (c := .execvpe "/bin/true" ["/bin/true"] []) .fresh
    (forks_of_succeeds (withUid [.mount, .uts]) onTerminal 1 2 ⟨(), by decide⟩ rfl (by decide))
    ⟨(), by decide⟩
    rfl ⟨(), by decide⟩ rfl (fun s h₁ e h₂ heq _ => childRest_allows (by decide) s h₁ e h₂ heq)
    (by decide)
  have hr' := onTerminal_runs hr
  exact ⟨cfg, h, k, hr', hproc,
    (wrap_untouched_iff hr').1 ⟨.inl (by decide), .inl (by decide)⟩⟩

/-- Without any namespace, the same request does not. -/
theorem wrap_touched : ∃ cfg h k,
    (withTerminals (· = 0)).Reachable 1 (withUid []).wrap .fresh cfg ∧
      cfg.procs 2 = some ⟨h, .call (I := calls) (.execvpe "/bin/true" ["/bin/true"] []) k⟩ ∧
      ¬ (withUid []).Untouched cfg := by
  obtain ⟨cfg, h, k, hr, hproc⟩ := childRest_comes_to
    (c := .execvpe "/bin/true" ["/bin/true"] []) .fresh
    (forks_of_succeeds (withUid []) onTerminal 1 2 ⟨(), by decide⟩ rfl (by decide)) ⟨(), by decide⟩
    rfl ⟨(), by decide⟩ rfl (fun s h₁ e h₂ heq _ => childRest_allows (by decide) s h₁ e h₂ heq)
    (by decide)
  have hr' := onTerminal_runs hr
  refine ⟨cfg, h, k, hr', hproc, fun hun => ?_⟩
  rcases (staysInside_of_untouched hr' hproc hun).1 with hm | huid | htty
  · exact absurd hm (by decide)
  · exact nomatch huid
  · exact absurd (htty 0 (by decide)) (by decide)

end CreateRequest

end Styrolite
