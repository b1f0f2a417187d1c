import Styrolite.Spec.Pair

/-!
# The two halves

Where the supervisor and the child stand when each makes a given call: which of
its steps it has then completed, and what those have done to the namespaces.
-/

namespace Styrolite

open Prog Kernel

namespace CreateRequest

variable {req : CreateRequest} {root child : Int} {s₀ : World}
  {cfg : Config calls Int World Err Unit} {h : List Event} {c : Call}

/-! ## The supervisor's half -/

/-- The supervisor configures only after it has read the child's signal. -/
theorem supervise_at_configure (hat : (req.supervise child).At h c)
    (hc : c.kind ∈ [.enterUserns, .userns] ∨ ∃ x v, c = .efdWrite x v) :
    ∃ u n h', h = ⟨.storeChildPid child, u⟩ :: ⟨.efdRead .parent, .ok n⟩ :: h' ∧
      (req.configure child).At h' c := by
  have hk : c.kind ∈ [.enterUserns, .userns, .efd] := by
    rcases hc with hc | ⟨x, v, rfl⟩
    · exact (show ∀ k ∈ [Call.Kind.enterUserns, .userns], k ∈ [.enterUserns, .userns, .efd] by
        decide) _ hc
    · simp [Call.kind]
  -- The call comes after the read, so the first two calls are none of these kinds
  simp only [supervise, at_sys_bind, at_check_bind] at hat
  rcases hat with ⟨-, rfl⟩ | ⟨u, h₁, rfl, ⟨-, rfl⟩ | ⟨_, h₂, rfl, n, rfl, hat⟩⟩
  · exact absurd hk (by simp [Call.kind])
  · simp [Call.kind] at hc
  · refine ⟨u, n, h₂, rfl, ?_⟩
    -- It is one of the configuration's, since waiting and reaping make none
    rcases at_bind.1 hat with hat' | ⟨-, _, h₄, -, hat', -⟩
    · exact hat'
    · have huses := Uses.bind (waitForPid_uses child) fun x =>
        Uses.bind reapChildren_uses fun _ => Uses.halt (α := Unit) x
      exact absurd hat' (huses.not_at (by decide) hk)

/-- The supervisor's only write to an eventfd is the child's release, after the maps. -/
theorem configure_at_write {x : Efd} {v : Nat}
    (hat : (req.configure child).At h (.efdWrite x v)) :
    x = .child ∧ v = 1 ∧
      (.user ∈ req.targetNs → (req.prepareUserns (req.usernsPid child)).Runs h (.ok ())) := by
  have hk : (Call.efdWrite x v).kind ∈ [.efd] := by simp [Call.kind]
  rcases at_bind.1 hat with hat' | ⟨⟨⟩, h₁, h₂, hr, hat', rfl⟩
  · exact absurd (at_when.1 hat').2 ((req.prepareUserns_uses _).not_at (by decide) hk)
  · simp only [at_sys_bind, at_check_bind, at_pure, and_false, exists_false, or_false] at hat'
    obtain ⟨rfl, heq⟩ := hat'
    cases heq
    rw [List.append_nil]
    exact ⟨rfl, rfl, (runs_when_ok.1 hr).1⟩

/-- The maps are written by `prepare_userns`, if a user namespace was requested. -/
theorem configure_at_userns (hat : (req.configure child).At h c)
    (hc : c.kind ∈ [.enterUserns, .userns]) :
    .user ∈ req.targetNs ∧ (req.prepareUserns (req.usernsPid child)).At h c := by
  rcases at_bind.1 hat with hat' | ⟨-, h₁, h₂, -, hat', rfl⟩
  · exact at_when.1 hat'
  · simp only [at_sys_bind, at_check_bind, at_pure, and_false, exists_false, or_false] at hat'
    obtain ⟨-, rfl⟩ := hat'
    simp [Call.kind] at hc

/-- The supervisor writes to the child's eventfd alone, once it has been signalled and is
    configured. -/
theorem supervise_at_write {x : Efd} {v : Nat}
    (hat : (req.supervise child).At h (.efdWrite x v)) :
    x = .child ∧ ∃ u n h', h = ⟨.storeChildPid child, u⟩ :: ⟨.efdRead .parent, .ok n⟩ :: h' ∧
      (.user ∈ req.targetNs → (req.prepareUserns (req.usernsPid child)).Runs h' (.ok ())) := by
  obtain ⟨u, n, h', rfl, hat'⟩ := supervise_at_configure hat (.inr ⟨x, v, rfl⟩)
  obtain ⟨rfl, -, hrun⟩ := configure_at_write hat'
  exact ⟨rfl, u, n, h', rfl, hrun⟩

/-- The supervisor reads once, at its start. -/
theorem supervise_at_read {x : Efd} (hat : (req.supervise child).At h (.efdRead x)) :
    x = .parent ∧ h = [⟨.storeChildPid child, ()⟩] := by
  have hk : (Call.efdRead x).kind ∈ [.efd] := by simp [Call.kind]
  simp only [supervise, at_sys_bind, at_check_bind] at hat
  rcases hat with ⟨-, heq⟩ | ⟨u, h₁, rfl, ⟨rfl, heq⟩ | ⟨_, h₂, rfl, n, rfl, hat⟩⟩
  · -- The second call is the read, and nothing after it is one
    cases heq
  · cases heq
    exact ⟨rfl, rfl⟩
  · rcases at_bind.1 hat with hat' | ⟨-, _, h₄, -, hat', -⟩
    · rcases at_bind.1 hat' with hat'' | ⟨-, _, h₅, -, hat'', -⟩
      · exact absurd (at_when.1 hat'').2 ((req.prepareUserns_uses _).not_at (by decide) hk)
      · simp only [at_sys_bind, at_check_bind, at_pure, and_false, exists_false, or_false] at hat''
        cases hat''.2
    · -- Nor does waiting for the child read an eventfd
      have huses := Uses.bind (waitForPid_uses child) fun x =>
        Uses.bind reapChildren_uses fun _ => Uses.halt (α := Unit) x
      exact absurd hat' (huses.not_at (by decide) hk)

/-- A finished configuration has released the child. -/
theorem configure_releases (hr : (req.configure child).Runs h (.ok ())) :
    (⟨.efdWrite .child 1, .ok ()⟩ : Event) ∈ h := by
  obtain ⟨⟨⟩, -, hr⟩ := hr.ranIn.bind
  obtain ⟨r, hw, hr⟩ := hr.bind
  obtain ⟨⟨⟩, hc, -⟩ := hr.bind
  rw [← ranIn_check hc]
  exact ranIn_sys hw

/-- A release is the end of the configuration. -/
theorem configured_of_release {p : Sys Unit} {v : Nat}
    (hr : (req.supervise child).Reaches h p)
    (hm : (⟨.efdWrite .child v, .ok ()⟩ : Event) ∈ h) :
    ∃ n h₁ h₂, h = ⟨.storeChildPid child, ()⟩ :: ⟨.efdRead .parent, .ok n⟩ :: (h₁ ++ h₂) ∧
      (req.configure child).Runs h₁ (.ok ()) := by
  obtain ⟨h₃, h₄, rfl⟩ := List.append_of_mem hm
  obtain ⟨u, n, h₅, rfl, hat⟩ := supervise_at_configure hr.at_of_split (.inr ⟨_, _, rfl⟩)
  refine ⟨n, h₅ ++ [⟨.efdWrite .child v, .ok ()⟩], h₄, by simp, ?_⟩
  -- The release is the last call of the configuration
  rcases at_bind.1 hat with hat' | ⟨⟨⟩, h₆, h₇, hpre, hat', rfl⟩
  · have hk : (Call.efdWrite .child v).kind ∈ [.efd] := by simp [Call.kind]
    exact absurd (at_when.1 hat').2 ((req.prepareUserns_uses _).not_at (by decide) hk)
  · simp only [at_sys_bind, at_check_bind, at_pure, and_false, exists_false, or_false] at hat'
    obtain ⟨rfl, heq⟩ := hat'
    cases heq
    rw [List.append_nil]
    exact runs_bind_ok.2 ⟨(), h₆, _, hpre, .call (.refl _), rfl⟩

/-! ## The child's half -/

/-- The kinds of calls the child makes only after its release. -/
def lateKinds : List Call.Kind := [.enterLate, .oom, .chown, .cred, .confine, .exec]

/-- A late call of the child comes after its signal and its release. -/
theorem childMain_at_late (hat : req.childMain.At h c) (hc : c.kind ∈ lateKinds) :
    ∃ hs n h', h = hs ++ ⟨.efdRead .child, .ok n⟩ :: h' ∧ req.childSignal.Runs hs (.ok ()) ∧
      req.childRest.At h' c := by
  rcases at_bind.1 hat with hat' | ⟨⟨⟩, hs, h₁, hrun, hat', rfl⟩
  · exact absurd hat' (req.childSignal_uses.not_at (by decide) hc)
  · simp only [at_sys_bind, at_check_bind] at hat'
    rcases hat' with ⟨-, rfl⟩ | ⟨_, h₂, rfl, n, rfl, hat'⟩
    · simp [Call.kind, lateKinds] at hc
    · exact ⟨hs, n, h₂, rfl, hrun, hat'⟩

/-- The child reads once, right after its signal. -/
theorem childMain_at_read {x : Efd} (hat : req.childMain.At h (.efdRead x)) :
    x = .child ∧ req.childSignal.Runs h (.ok ()) := by
  have hk : (Call.efdRead x).kind ∈ [.efd] := by simp [Call.kind]
  -- The signal reads nothing
  rcases at_bind.1 hat with hat₁ | ⟨⟨⟩, hs, _, hsig, hat₁, rfl⟩
  · rcases at_bind.1 hat₁ with hat₂ | ⟨-, _, h₃, -, hat₂, -⟩
    · exact absurd hat₂ ((orExit_uses resetChildSignalHandlers_uses).not_at (by decide) hk)
    rcases at_bind.1 hat₂ with hat₃ | ⟨-, _, h₄, -, hat₃, -⟩
    · exact absurd hat₃ (req.stage_uses.not_at (by decide) hk)
    simp only [at_sys_bind, at_check_bind, at_pure, and_false, exists_false, or_false] at hat₃
    cases hat₃.2
  · simp only [at_sys_bind, at_check_bind] at hat₁
    rcases hat₁ with ⟨rfl, heq⟩ | ⟨_, h₂, rfl, n, rfl, hat₂⟩
    · cases heq
      rw [List.append_nil]
      exact ⟨rfl, hsig⟩
    · -- And nothing after the release does
      exact absurd hat₂ (req.childRest_uses.not_at (by decide) hk)

/-- After its signal the child waits for its release, and ends if the read fails. -/
theorem childMain_after_signal {h₁ h₂ : List Event} {p : Sys Unit}
    (hr : req.childMain.Reaches (h₁ ++ h₂) p) (hsig : req.childSignal.Runs h₁ (.ok ())) :
    h₂ = [] ∨ (∃ e, h₂ = [⟨.efdRead .child, .error e⟩]) ∨
      ∃ n h₃, h₂ = ⟨.efdRead .child, .ok n⟩ :: h₃ := by
  have hmain : (req.childSignal >>= fun _ => Prog.call (I := calls) (.efdRead .child) fun r =>
      check r >>= fun _ => req.childRest).Reaches (h₁ ++ h₂) p := hr
  have hread := Reaches.after_runs hsig hmain
  rcases reaches_call.1 hread with ⟨rfl, -⟩ | ⟨a, h₃, rfl, hk⟩
  · exact .inl rfl
  · cases a with
    | error e =>
      obtain ⟨rfl, -⟩ := reaches_done.1 hk
      exact .inr (.inl ⟨e, rfl⟩)
    | ok n => exact .inr (.inr ⟨n, h₃, rfl⟩)

/-- Only the child makes a late call. -/
theorem late_cases (hr : linux.Reachable root req.wrap s₀ cfg) {pid : Int} {k : c.Answer → Sys Unit}
    (hproc : cfg.procs pid = some ⟨h, .call (I := calls) c k⟩) (hc : c.kind ∈ lateKinds) :
    ∃ h₀ h₁ h₂ p₁ p₂, req.Pair root s₀ cfg pid h₀ h₁ h₂ p₁ p₂ ∧
      h = h₀ ++ ⟨.fork, .ok .child⟩ :: h₂ ∧ req.childMain.At h₂ c := by
  rcases process_cases hr hproc with ⟨-, hk, -⟩ | ⟨child, h₀, h₁, h₂, p₁, p₂, hpair, hcase⟩
  · exact absurd hc ((by decide : ∀ k ∈ soloKinds, k ∉ lateKinds) _ hk)
  · rcases hcase with ⟨-, -, hat⟩ | ⟨rfl, rfl, hat⟩
    · exact absurd hat ((req.supervise_uses child).not_at (by decide) hc)
    · exact ⟨h₀, h₁, h₂, p₁, p₂, hpair, rfl, hat⟩

/-- The child's only write to an eventfd is its signal, after the two-stage work. -/
theorem childMain_at_write {x : Efd} {v : Nat} (hat : req.childMain.At h (.efdWrite x v)) :
    x = .parent ∧ v = 2 ∧ ∃ hr hs, h = hr ++ hs ∧
      (orExit resetChildSignalHandlers).Runs hr (.ok ()) ∧ req.stage.Runs hs (.ok ()) := by
  have hk : (Call.efdWrite x v).kind ∈ [.efd] := by simp [Call.kind]
  -- After the signal the child writes to no eventfd
  have hsig : req.childSignal.At h (.efdWrite x v) := by
    rcases at_bind.1 hat with hat' | ⟨⟨⟩, hs, h₁, -, hat', rfl⟩
    · exact hat'
    · simp only [at_sys_bind, at_check_bind, reduceCtorEq, and_false, false_or] at hat'
      obtain ⟨_, h₂, rfl, n, rfl, hat'⟩ := hat'
      exact absurd hat' (req.childRest_uses.not_at (by decide) hk)
  rcases at_bind.1 hsig with hat₁ | ⟨⟨⟩, hr, h₁, hrun, hat₁, rfl⟩
  · exact absurd hat₁ ((orExit_uses resetChildSignalHandlers_uses).not_at (by decide) hk)
  rcases at_bind.1 hat₁ with hat₂ | ⟨⟨⟩, hs, h₂, hstage, hat₂, rfl⟩
  · exact absurd hat₂ (req.stage_uses.not_at (by decide) hk)
  -- The write is what comes after the staging
  simp only [at_sys_bind, at_check_bind, at_pure, and_false, exists_false, or_false] at hat₂
  obtain ⟨rfl, heq⟩ := hat₂
  cases heq
  exact ⟨rfl, rfl, hr, hs, by simp, hrun, hstage⟩

/-- A signal is the end of the child's first part. -/
theorem signalled_of_write {p : Sys Unit} {v : Nat} (hr : req.childMain.Reaches h p)
    (hm : (⟨.efdWrite .parent v, .ok ()⟩ : Event) ∈ h) :
    ∃ h₁ h₂, h = h₁ ++ h₂ ∧ req.childSignal.Runs h₁ (.ok ()) := by
  obtain ⟨h₃, h₄, rfl⟩ := List.append_of_mem hm
  obtain ⟨-, rfl, hreset, hs, rfl, hrr, hsr⟩ := childMain_at_write hr.at_of_split
  refine ⟨hreset ++ (hs ++ [⟨.efdWrite .parent 2, .ok ()⟩]), h₄, by simp, ?_⟩
  refine runs_bind_ok.2 ⟨(), hreset, _, hrr, runs_bind_ok.2 ⟨(), hs, _, hsr, ?_, rfl⟩, rfl⟩
  exact .call (.refl _)

/-- With the two stages skipped nothing is staged. -/
theorem stage_runs_skip (hskip : req.skipTwoStage = true) (hr : req.stage.Runs h (.ok ())) :
    h = [] := by
  simpa [stage, hskip] using hr

/-- The staging pivots, and then makes the user namespace. -/
theorem stage_runs (hskip : req.skipTwoStage = false) (hr : req.stage.Runs h (.ok ())) :
    ∃ hp hu, h = hp ++ hu ∧ req.pivotIfMount.Runs hp (.ok ()) ∧
      hu = if .user ∈ req.targetNs then
        [⟨.unshare (Namespace.cloneFlags [.user]), .ok ()⟩] else [] := by
  simp only [stage, hskip, Bool.not_false, runs_when_ok, runs_bind_ok, forall_const,
    not_true_eq_false, false_implies, and_true] at hr
  obtain ⟨⟨⟩, hp, hu, hpr, ⟨hin, hout⟩, rfl⟩ := hr
  refine ⟨hp, hu, rfl, hpr, ?_⟩
  split
  · next hu => exact unshare_runs.1 (hin hu)
  · next hu => exact hout hu

/-- The child's signal comes last, after the reset of its handlers and the two-stage work. -/
theorem childSignal_runs (hr : req.childSignal.Runs h (.ok ())) :
    ∃ h₁ h₂, h = h₁ ++ (h₂ ++ [⟨.efdWrite .parent 2, .ok ()⟩]) ∧
      (orExit resetChildSignalHandlers).Runs h₁ (.ok ()) ∧ req.stage.Runs h₂ (.ok ()) := by
  obtain ⟨⟨⟩, h₁, _, hreset, hr₁, rfl⟩ := runs_bind_ok.1 hr
  obtain ⟨⟨⟩, h₂, h₃, hstage, hwrite, rfl⟩ := runs_bind_ok.1 hr₁
  simp only [runs_sys_bind, runs_check_bind_ok, runs_pure] at hwrite
  obtain ⟨_, _, rfl, ⟨⟩, rfl, rfl, -⟩ := hwrite
  exact ⟨h₁, h₂, rfl, hreset, hstage⟩

/-- The namespaces after the score is written. -/
theorem applyOomScore_ns (s : NsState) (p : Int) {score : Option Int}
    (hr : (applyOomScore score).Runs h (.ok ())) :
    s.after p h = s.setScore p score := by
  cases score with
  | none =>
    obtain ⟨rfl, -⟩ := runs_pure.1 hr
    rfl
  | some score =>
    obtain ⟨_, rfl, rfl⟩ := runs_checked_ok.1 hr
    rfl

/-- What the child does between its release and `execvpe`. -/
theorem childRest_at_exec {program : String} {args env : List String}
    (hat : req.childRest.At h (.execvpe program args env)) :
    ∃ hp ho hc hq he, h = hp ++ (ho ++ (hc ++ (hq ++ he))) ∧
      (when req.skipTwoStage req.pivotIfMount).Runs hp (.ok ()) ∧
      (applyOomScore req.exec.oomScoreAdj).Runs ho (.ok ()) ∧
      (setupConsole req.exec.uid).Runs hc (.ok ()) ∧
      (preexecPrep req.exec req.capabilities).Runs hq (.ok ()) ∧
      req.exec.execute.At he (.execvpe program args env) := by
  have hk : (Call.execvpe program args env).kind ∈ [.exec] := by simp [Call.kind]
  obtain ⟨⟨⟩, hp, _, hpr, hat₁, rfl⟩ :=
    Uses.at_past (.when fun _ => req.pivotIfMount_uses) (by decide) hk hat
  obtain ⟨⟨⟩, ho, _, hor, hat₂, rfl⟩ := (applyOomScore_uses _).at_past (by decide) hk hat₁
  obtain ⟨⟨⟩, hc, _, hcr, hat₃, rfl⟩ := (setupConsole_uses _).at_past (by decide) hk hat₂
  obtain ⟨⟨⟩, hq, he, hqr, hat₄, rfl⟩ := (preexecPrep_uses _ _).at_past (by decide) hk hat₃
  exact ⟨hp, ho, hc, hq, he, rfl, hpr, hor, hcr, hqr, hat₄⟩

/-- Before the workload the mount tree has been set up, in either mode. -/
theorem childMain_pivots {program : String} {args env : List String}
    (hat : req.childMain.At h (.execvpe program args env)) (hm : .mount ∈ req.targetNs) :
    req.pivotFs.RanIn h () := by
  obtain ⟨hs, n, h', rfl, hsig, hrest⟩ := childMain_at_late hat (by simp [Call.kind, lateKinds])
  by_cases hskip : req.skipTwoStage = true
  · obtain ⟨hp, ho, hc, hq, he, rfl, hpr, -⟩ := childRest_at_exec hrest
    have hpivot := (hpr.ranIn.when hskip).when hm
    exact ((hpivot.append_left _).append_right [⟨.efdRead .child, .ok n⟩]).append_right hs
  · obtain ⟨h₁, h₂, rfl, -, hstage⟩ := childSignal_runs hsig
    obtain ⟨hp, hu, rfl, hpr, -⟩ := stage_runs (by simpa using hskip) hstage
    have hpivot := hpr.ranIn.when hm
    exact ((((hpivot.append_left hu).append_left _).append_right h₁).append_left _)

/-! ## Namespaces -/

/-- The prologue's one change to the namespaces is the first `unshare`. -/
theorem prologue_ns (s : NsState) (p : Int) (hr : req.prologue.Runs h (.ok ())) :
    s.after p h = s.unshare p (Namespace.cloneFlags req.firstLevelNs) := by
  obtain ⟨h₁, h₂, rfl, ⟨r, hcg⟩, hset⟩ := prologue_runs hr
  rw [NsState.after_append, NsState.after_cons,
    s.after_of_uses p (.attempt req.prepareCgroup_uses) (by decide) hcg,
    NsState.after_of_uses _ p req.setup_uses (by decide) hset]
  rfl

/-- What a finished `pivot_fs` has done, `rootfs` being the root it set up. -/
structure PivotFsDone (req : CreateRequest) (rootfs : String) (h : List Event) : Prop where
  rootfs_eq : ∃ r wid, req.rootfs = some r ∧
    rootfs = if r = "/" then "/tmp/styrolite-stage-" ++ wid ++ "/root" else r
  unshared : oldroot.mount.RanIn h ()
  bound : (newroot rootfs).mount.RanIn h ()
  sealed : req.rootfsReadonly.getD false = true → (newroot rootfs).sealMount.RanIn h ()
  proc : (procfs rootfs).mount.RanIn h ()
  mounted : ∀ m ∈ req.mounts.getD [], (parentedMount rootfs m).mount.RanIn h ()
  mutated : ∀ m ∈ req.mutations.getD [], (mutate rootfs m).RanIn h ()
  masked : ∀ p ∈ req.maskedPaths.getD [], (maskPath rootfs p).RanIn h ()
  madeReadonly : ∀ p ∈ req.readonlyPaths.getD [], (makeReadonly rootfs p).RanIn h ()
  pivoted : (newroot rootfs).pivot.RanIn h ()

/-- Where the root filesystem is staged: only `/` has to be. -/
theorem stageRootfs_ranIn {r wid₁ wid₂ wid₃ rootfs : String}
    (hr : (stageRootfs r wid₁ wid₂ wid₃).RanIn h rootfs) :
    rootfs = if r = "/" then "/tmp/styrolite-stage-" ++ wid₂ ++ "/root" else r := by
  unfold stageRootfs at hr
  split at hr
  · -- The six steps of the staging change nothing about the path
    next hroot =>
    obtain ⟨_, -, hr⟩ := hr.bind
    obtain ⟨_, -, hr⟩ := hr.bind
    obtain ⟨_, -, hr⟩ := hr.bind
    obtain ⟨_, -, hr⟩ := hr.bind
    obtain ⟨_, -, hr⟩ := hr.bind
    obtain ⟨_, -, hr⟩ := hr.bind
    rw [if_pos hroot]
    exact hr.pure.symm
  · next hroot =>
    rw [if_neg hroot]
    exact hr.pure.symm

/-- What `pivot_fs` has done when it ends well. -/
theorem pivotFs_done (hr : req.pivotFs.RanIn h ()) : ∃ rootfs, req.PivotFsDone rootfs h := by
  obtain ⟨_, -, hr⟩ := hr.bind
  obtain ⟨r, hroot, hr⟩ := hr.bind
  obtain ⟨⟨⟩, hold, hr⟩ := hr.bind
  obtain ⟨wid₁, -, hr⟩ := hr.bind
  obtain ⟨wid₂, -, hr⟩ := hr.bind
  obtain ⟨wid₃, -, hr⟩ := hr.bind
  obtain ⟨rootfs, hstage, hr⟩ := hr.bind
  obtain ⟨⟨⟩, hnew, hr⟩ := hr.bind
  obtain ⟨⟨⟩, hseal, hr⟩ := hr.bind
  obtain ⟨⟨⟩, hproc, hr⟩ := hr.bind
  obtain ⟨⟨⟩, hmounts, hr⟩ := hr.bind
  obtain ⟨⟨⟩, hmut, hr⟩ := hr.bind
  obtain ⟨⟨⟩, hmask, hr⟩ := hr.bind
  obtain ⟨⟨⟩, hro, hr⟩ := hr.bind
  -- One field for each of these parts
  refine ⟨rootfs, ⟨r, wid₂, ?_, stageRootfs_ranIn hstage⟩, hold.mapErr, hnew.mapErr,
    fun hs => (hseal.when hs).mapErr, hproc.mapErr, fun m hm => (hmounts.forM m hm).mapErr,
    hmut.forM, fun p hp => (hmask.forM p hp).mapErr, fun p hp => (hro.forM p hp).mapErr,
    hr.mapErr⟩
  have hsome := ranIn_orFail hroot
  cases hreq : req.rootfs with
  | none => rw [hreq] at hsome; exact nomatch hsome
  | some r' => rw [hreq] at hsome; cases hsome; rfl

/-- A pivot ends with `pivot_root`. -/
theorem pivot_pivots {spec : MountSpec} (hr : spec.pivot.RanIn h ()) :
    (⟨.pivotRoot "." ".", .ok ()⟩ : Event) ∈ h := by
  obtain ⟨_, -, hr⟩ := hr.bind
  obtain ⟨_, -, hr⟩ := hr.bind
  obtain ⟨r, hp, hr⟩ := hr.bind
  obtain ⟨⟨⟩, hc, -⟩ := hr.bind
  rw [← ranIn_check hc.mapErr]
  exact ranIn_sys hp

/-- A mount tree that is set up ends with a pivot. -/
theorem pivotFs_runs_pivot (hr : req.pivotFs.Runs h (.ok ())) :
    ∃ n o, (⟨.pivotRoot n o, .ok ()⟩ : Event) ∈ h := by
  obtain ⟨rootfs, hdone⟩ := pivotFs_done hr.ranIn
  exact ⟨_, _, pivot_pivots hdone.pivoted⟩

/-- All `pivot_fs` does to the namespaces is the pivot. -/
theorem pivotFs_ns (s : NsState) (p : Int) (hr : req.pivotFs.Runs h (.ok ())) :
    s.after p h = s.pivotRoot p := by
  refine s.after_pivot p (fun e he hk => ?_) (pivotFs_runs_pivot hr)
  have hin : e.call.kind ∈ _ := req.pivotFs_uses.mem (e := e) hr he
  revert hk hin
  cases e.call.kind <;> decide

/-- The pivot makes the new mount the process's root, if there is a mount namespace. -/
theorem pivotIfMount_ns (s : NsState) (p : Int) (hr : req.pivotIfMount.Runs h (.ok ())) :
    s.after p h = if .mount ∈ req.targetNs then s.pivotRoot p else s := by
  obtain ⟨hin, hout⟩ := runs_when_ok.1 hr
  split
  · next hm => exact pivotFs_ns s p (hin hm)
  · next hm => rw [hout hm, NsState.after_nil]

/-! ## Who writes and who reads which eventfd -/

section

variable {h₀ h₁ h₂ : List Event} {p₁ p₂ : Sys Unit}

/-- The supervisor never writes to the parent's eventfd. -/
theorem Pair.posted_parent (hp : req.Pair root s₀ cfg child h₀ h₁ h₂ p₁ p₂) :
    posted .parent h₁ = 0 := by
  refine posted_eq_zero fun e he v heq => ?_
  obtain ⟨h₃, h₄, rfl⟩ := List.append_of_mem he
  have hat := hp.rootReaches.at_of_split
  rw [heq] at hat
  exact nomatch (supervise_at_write hat).1

/-- The child never writes to its own eventfd. -/
theorem Pair.posted_child (hp : req.Pair root s₀ cfg child h₀ h₁ h₂ p₁ p₂) :
    posted .child h₂ = 0 := by
  refine posted_eq_zero fun e he v heq => ?_
  obtain ⟨h₃, h₄, rfl⟩ := List.append_of_mem he
  have hat := hp.childReaches.at_of_split
  rw [heq] at hat
  exact nomatch (childMain_at_write hat).1

/-- The supervisor never reads the child's eventfd. -/
theorem Pair.taken_child (hp : req.Pair root s₀ cfg child h₀ h₁ h₂ p₁ p₂) :
    taken .child h₁ = 0 := by
  refine taken_eq_zero fun e he heq => ?_
  obtain ⟨h₃, h₄, rfl⟩ := List.append_of_mem he
  have hat := hp.rootReaches.at_of_split
  rw [heq] at hat
  exact nomatch (supervise_at_read hat).1

/-- The child never reads the parent's eventfd. -/
theorem Pair.taken_parent (hp : req.Pair root s₀ cfg child h₀ h₁ h₂ p₁ p₂) :
    taken .parent h₂ = 0 := by
  refine taken_eq_zero fun e he heq => ?_
  obtain ⟨h₃, h₄, rfl⟩ := List.append_of_mem he
  have hat := hp.childReaches.at_of_split
  rw [heq] at hat
  exact nomatch (childMain_at_read hat).1

/-- An eventfd that has been written more often than read may be read. -/
theorem Pair.allows_read (hp : req.Pair root s₀ cfg child h₀ h₁ h₂ p₁ p₂) {x : Efd} (pid : Int)
    (hlt : taken x h₁ + taken x h₂ < posted x h₁ + posted x h₂) :
    cfg.state.allows pid (.efdRead x) (.ok 1) := by
  have hbal := hp.balance x
  refine ⟨by omega, ?_⟩
  rw [hp.semaphore x, if_pos rfl]

/-- One that nobody has written may not. -/
theorem Pair.not_allows_read (hp : req.Pair root s₀ cfg child h₀ h₁ h₂ p₁ p₂) {x : Efd}
    (pid : Int) {n : Nat} (hz : posted x h₁ + posted x h₂ = 0) :
    ¬ cfg.state.allows pid (.efdRead x) (.ok n) := by
  have hbal := hp.balance x
  rintro ⟨hpos, -⟩
  omega

end

end CreateRequest

end Styrolite
