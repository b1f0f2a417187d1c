import Styrolite.ForStd.Script
import Styrolite.Spec.HandshakeCorrect

/-!
# The launch follows a script

Supervisor and child of `CreateRequest.wrap` hand over to each other twice: the
child signals that its namespaces stand, the supervisor receives that, configures
the user namespace and releases the child, and the child resumes. Whatever the
interleaving and whatever fails, these four things happen in this order as far as
they happen, and each kind of work has its place between two of them. So at no
time do both processes work on the container.

## Key results

- `CreateRequest.wrap_script`: the order of the handshake, and what is done when
-/

namespace Styrolite

open Prog Kernel

/-- What the two processes hand over to each other. -/
inductive Cue where
  | signal | receive | release | resume
  deriving DecidableEq, Repr

/-- What an event contributes to the handshake. -/
def cue : Event → Option Cue
  | ⟨.efdWrite .parent _, .ok _⟩ => some .signal
  | ⟨.efdRead .parent, .ok _⟩ => some .receive
  | ⟨.efdWrite .child _, .ok _⟩ => some .release
  | ⟨.efdRead .child, .ok _⟩ => some .resume
  | _ => none

/-- The order of the handshake. -/
def script : List Cue := [.signal, .receive, .release, .resume]

/-- What of the handshake has happened. -/
def cues (trace : List (Int × Event)) : List Cue := trace.filterMap fun x => cue x.2

/-- A cue is an event on an eventfd. -/
theorem kind_of_cue {e : Event} {t : Cue} (ht : cue e = some t) : e.call.kind = .efd := by
  unfold cue at ht
  split at ht
  · rfl
  · rfl
  · rfl
  · rfl
  · cases ht

/-- A cue that is a read has been waited for. -/
theorem taken_of_cue {h : List Event} {x : Efd} {t : Cue} (ht : t ∈ h.filterMap cue)
    (hx : ∀ e, cue e = some t → ∃ n, e = ⟨.efdRead x, .ok n⟩) : 0 < taken x h := by
  obtain ⟨e, he, hcue⟩ := List.mem_filterMap.1 ht
  obtain ⟨n, rfl⟩ := hx e hcue
  exact taken_pos he

/-- The supervisor's cue to go on is a read of the parent's eventfd. -/
theorem cue_eq_receive {e : Event} (ht : cue e = some .receive) :
    ∃ n, e = ⟨.efdRead .parent, .ok n⟩ := by
  unfold cue at ht
  split at ht
  · cases ht
  · exact ⟨_, rfl⟩
  · cases ht
  · cases ht
  · cases ht

/-- The child's cue to go on is a read of its own. -/
theorem cue_eq_resume {e : Event} (ht : cue e = some .resume) :
    ∃ n, e = ⟨.efdRead .child, .ok n⟩ := by
  unfold cue at ht
  split at ht
  · cases ht
  · cases ht
  · cases ht
  · exact ⟨_, rfl⟩
  · cases ht

/-- A program without calls on eventfds has no cues. -/
theorem scripted_of_uses {α : Type} {p : Sys α} {ks : List Call.Kind}
    (hp : p.Uses (Call.within ks)) (hks : .efd ∉ ks) : p.Scripted cue [] :=
  .of_uses hp fun c a hc => by
    cases ht : cue ⟨c, a⟩ with
    | none => rfl
    | some t => exact absurd (kind_of_cue ht ▸ hc) hks

/-- A write that is checked gives its cue when it succeeds. -/
theorem scripted_write {x : Efd} {v : Nat} {t : Cue} {α : Type} {k : Unit → Sys α} {S : List Cue}
    (hok : cue ⟨.efdWrite x v, .ok ()⟩ = some t) (herr : ∀ e, cue ⟨.efdWrite x v, .error e⟩ = none)
    (hk : (k ()).Scripted cue S) :
    (sys (.efdWrite x v) >>= fun r => check r >>= k).Scripted cue (t :: S) :=
  .checked_bind (I := calls) (c := .efdWrite x v) (e := Err.os)
    (g := fun r : Except Errno Unit => r) (fun _ _ ha => ha ▸ hok) (fun _ e ha => ha ▸ herr e) fun _ => hk

/-- So does a read. -/
theorem scripted_read {x : Efd} {t : Cue} {α : Type} {k : Nat → Sys α} {S : List Cue}
    (hok : ∀ n, cue ⟨.efdRead x, .ok n⟩ = some t) (herr : ∀ e, cue ⟨.efdRead x, .error e⟩ = none)
    (hk : ∀ n, (k n).Scripted cue S) :
    (sys (.efdRead x) >>= fun r => check r >>= k).Scripted cue (t :: S) :=
  .checked_bind (I := calls) (c := .efdRead x) (e := Err.os) (g := fun r : Except Errno Nat => r)
    (fun _ n ha => ha ▸ hok n) (fun _ e ha => ha ▸ herr e) hk

namespace CreateRequest

variable {req : CreateRequest} {root child : Int} {s₀ : World}
  {cfg : Config calls Int World Err Unit} {h h₀ h₁ h₂ : List Event} {p₁ p₂ : Sys Unit}

/-! ## The two parts -/

/-- The configuration ends with the release of the child. -/
theorem configure_scripted (req : CreateRequest) (child : Int) :
    (req.configure child).Scripted cue [.release] :=
  .bind (S := [])
    (scripted_of_uses (.when fun _ => req.prepareUserns_uses _) (by decide)) fun _ =>
    scripted_write rfl (fun _ => rfl) (.pure ())

/-- The supervisor receives the signal, and then releases the child. -/
theorem supervise_scripted (req : CreateRequest) (child : Int) :
    (req.supervise child).Scripted cue [.receive, .release] := by
  have hstore : (sys (.storeChildPid child)).Uses (Call.within [.signal]) := uses_sys _ rfl
  have hwait : (waitForPid child >>= fun exitcode => reapChildren >>= fun _ =>
      (Prog.halt exitcode : Sys Unit)).Uses (Call.within [.wait]) :=
    .bind (waitForPid_uses _) fun _ => .bind reapChildren_uses fun _ => .halt _
  exact .bind (S := []) (scripted_of_uses hstore (by decide)) fun _ =>
    scripted_read (fun _ => rfl) (fun _ => rfl) fun _ =>
      (req.configure_scripted child).bind fun _ => scripted_of_uses hwait (by decide)

/-- The first half of the child ends with its signal. -/
theorem childSignal_scripted (req : CreateRequest) : req.childSignal.Scripted cue [.signal] :=
  .bind (S := []) (scripted_of_uses (orExit_uses resetChildSignalHandlers_uses) (by decide))
    fun _ => .bind (S := []) (scripted_of_uses req.stage_uses (by decide)) fun _ =>
      scripted_write rfl (fun _ => rfl) (.pure ())

/-- The child signals, and resumes when it is released. -/
theorem childMain_scripted (req : CreateRequest) :
    req.childMain.Scripted cue [.signal, .resume] :=
  req.childSignal_scripted.bind fun _ => scripted_read (fun _ => rfl) (fun _ => rfl) fun _ =>
    scripted_of_uses req.childRest_uses (by decide)

/-! ## What has happened -/

/-- Histories of programs without calls on eventfds have no cues. -/
theorem cues_eq_nil_of_uses {α : Type} {p q : Sys α} {ks : List Call.Kind}
    (hp : p.Uses (Call.within ks)) (hks : .efd ∉ ks) (hr : p.Reaches h q) : h.filterMap cue = [] :=
  List.prefix_nil.1 ((scripted_of_uses hp hks).reaches hr)

/-- Either process has done what it has to hand over in its order. -/
theorem Pair.cues_perm (hp : req.Pair root s₀ cfg child h₀ h₁ h₂ p₁ p₂) :
    (cues cfg.trace).Perm (h₁.filterMap cue ++ h₂.filterMap cue) ∧
      h₁.filterMap cue <+: [.receive, .release] ∧ h₂.filterMap cue <+: [.signal, .resume] := by
  refine ⟨?_, (req.supervise_scripted child).reaches hp.rootReaches,
    req.childMain_scripted.reaches hp.childReaches⟩
  have hmap : ∀ (pid : Int) (h : List Event),
      (h.map (Prod.mk pid)).filterMap (fun x => cue x.2) = h.filterMap cue := fun pid h => by
    rw [List.filterMap_map]
    rfl
  have hsolo := cues_eq_nil_of_uses req.prologue_uses (by decide) hp.prologue
  have hperm := hp.trace.filterMap fun x => cue x.2
  have hfork : ∀ a, cue ⟨.fork, a⟩ = none := fun a => rfl
  simpa [cues, hmap, hsolo, hfork, List.filterMap_append, List.filterMap_cons] using hperm

/-- There is no cue before the fork. -/
theorem cues_of_solo {q : Sys Unit} (hsolo : Solo linux root s₀ req.wrap cfg h q) :
    cues cfg.trace = [] := by
  rw [cues, hsolo.trace]
  refine List.filterMap_eq_nil_iff.2 fun x hx => ?_
  obtain ⟨e, he, rfl⟩ := List.mem_map.1 hx
  cases ht : cue e with
  | none => rfl
  | some t =>
    have hin := solo_kind hsolo he
    rw [kind_of_cue ht] at hin
    exact absurd hin (by decide)

/-- Whoever receives has been signalled, and whoever resumes has been released. -/
theorem Pair.cues_initial (hp : req.Pair root s₀ cfg child h₀ h₁ h₂ p₁ p₂) :
    Script.Initial script (cues cfg.trace) := by
  obtain ⟨hperm, hroot, hchild⟩ := hp.cues_perm
  have hmem : ∀ t, t ∈ cues cfg.trace ↔ t ∈ h₁.filterMap cue ∨ t ∈ h₂.filterMap cue := fun t => by
    rw [hperm.mem_iff, List.mem_append]
  -- Each cue waits for the one before it: a read for the write, and the rest by their program
  have hreceive : .receive ∈ cues cfg.trace → .signal ∈ cues cfg.trace := by
    intro hin
    have hin₁ := ((hmem _).1 hin).resolve_right fun h => absurd (hchild.subset h) (by decide)
    have htaken := taken_of_cue hin₁ fun _ => cue_eq_receive
    have hbal := hp.balance .parent
    rw [hp.posted_parent] at hbal
    obtain ⟨v, hv⟩ := exists_write_of_posted (x := .parent) (h := h₂) (by omega)
    exact (hmem _).2 (.inr (List.mem_filterMap.2 ⟨_, hv, rfl⟩))
  have hrelease : .release ∈ cues cfg.trace → .receive ∈ cues cfg.trace := by
    intro hin
    have hin₁ := ((hmem _).1 hin).resolve_right fun h => absurd (hchild.subset h) (by decide)
    rcases List.prefix_cons_iff.1 hroot with hnil | ⟨l, hl, -⟩
    · rw [hnil] at hin₁
      cases hin₁
    · exact (hmem _).2 (.inl (hl ▸ List.mem_cons_self))
  have hresume : .resume ∈ cues cfg.trace → .release ∈ cues cfg.trace := by
    intro hin
    have hin₂ := ((hmem _).1 hin).resolve_left fun h => absurd (hroot.subset h) (by decide)
    have htaken := taken_of_cue hin₂ fun _ => cue_eq_resume
    have hbal := hp.balance .child
    rw [hp.posted_child] at hbal
    obtain ⟨v, hv⟩ := exists_write_of_posted (x := .child) (h := h₁) (by omega)
    exact (hmem _).2 (.inl (List.mem_filterMap.2 ⟨_, hv, rfl⟩))
  refine ⟨?_, fun t _ => by cases t <;> decide, fun {S₁ b a S₂} hS ha => ?_⟩
  · -- No cue comes twice, since each process has its own and gives them once
    rw [hperm.nodup_iff]
    exact (by decide : ([.receive, .release] ++ [.signal, .resume] : List Cue).Nodup).sublist
      (hroot.sublist.append hchild.sublist)
  · -- the neighbours in the script
    rcases S₁ with _ | ⟨_, _ | ⟨_, _ | ⟨_, S₁⟩⟩⟩
    · cases hS
      exact hreceive ha
    · cases hS
      exact hrelease ha
    · cases hS
      exact hresume ha
    · -- The script has four cues, so there are no more neighbours
      have hlen := congrArg List.length hS
      simp only [script, List.length_append, List.length_cons, List.length_nil] at hlen
      omega

/-- In every run the handshake goes as far as it goes in the one order. -/
theorem cues_prefix (hr : linux.Reachable root req.wrap s₀ cfg) : cues cfg.trace <+: script := by
  refine Reachable.follows_script (by decide) (fun cfg hr => ?_) (fun c a q b hs => ?_) hr
  · rcases wrap_cases hr with ⟨h, q, hsolo⟩ | ⟨child, h₀, h₁, h₂, p₁, p₂, hp⟩
    · have hnil := cues_of_solo hsolo
      unfold cues at hnil
      rw [hnil]
      exact ⟨List.nodup_nil, List.nil_subset _, fun _ ha => absurd ha List.not_mem_nil⟩
    · exact hp.cues_initial
  · change spawn c a = some (q, b) at hs
    unfold spawn at hs
    split at hs
    · rfl
    · cases hs

/-! ## What is done when -/

/-- Where the child sets up its mounts: before it signals, or in the other mode after it has been
    released. -/
theorem childMain_at_pivot {c : Call} (hat : req.childMain.At h c)
    (hc : c.kind ∈ [.enterPivot, .pivot]) :
    (req.skipTwoStage = false ∧ h.filterMap cue = []) ∨
      req.skipTwoStage = true ∧ .resume ∈ h.filterMap cue := by
  rcases at_bind.1 hat with hsig | ⟨⟨⟩, hs, _, -, hread, rfl⟩
  · rcases at_bind.1 hsig with hreset | ⟨⟨⟩, hr, _, hreset, hstage, rfl⟩
    · exact absurd hreset ((orExit_uses resetChildSignalHandlers_uses).not_at (by decide) hc)
    rcases at_bind.1 hstage with hstage | ⟨⟨⟩, _, _, -, hwrite, -⟩
    · -- Before the signal nothing has been read or written
      obtain ⟨k, hreach⟩ := hstage
      refine .inl ⟨by simpa using (at_when.1 ⟨k, hreach⟩).1, ?_⟩
      rw [List.filterMap_append, cues_eq_nil_of_uses req.stage_uses (by decide) hreach,
        cues_eq_nil_of_uses (orExit_uses resetChildSignalHandlers_uses) (by decide) hreset]
      rfl
    · simp only [at_sys_bind, at_check_bind, at_pure, and_false, exists_false, or_false] at hwrite
      obtain ⟨-, rfl⟩ := hwrite
      simp [Call.kind] at hc
  · simp only [at_sys_bind, at_check_bind] at hread
    rcases hread with ⟨-, rfl⟩ | ⟨_, h', rfl, n, rfl, hrest⟩
    · simp [Call.kind] at hc
    -- After the release the child has resumed
    have hin : Cue.resume ∈ (hs ++ ⟨.efdRead .child, .ok n⟩ :: h').filterMap cue :=
      List.mem_filterMap.2 ⟨⟨.efdRead .child, .ok n⟩, by simp, rfl⟩
    rcases at_bind.1 hrest with hwhen | ⟨⟨⟩, _, _, -, htail, -⟩
    · exact .inr ⟨(at_when.1 hwhen).1, hin⟩
    · exact absurd htail (req.childTail_uses.not_at (by decide) hc)

/-- The supervisor waits for the child's end only after it has released it. -/
theorem supervise_at_wait {c : Call} (hat : (req.supervise child).At h c) (hc : c.kind = .wait) :
    .release ∈ h.filterMap cue := by
  have hk : c.kind ∈ [.wait] := by simp [hc]
  rcases at_sys_bind.1 hat with ⟨-, rfl⟩ | ⟨_, h', rfl, hread⟩
  · cases hc
  simp only [at_sys_bind, at_check_bind] at hread
  rcases hread with ⟨-, rfl⟩ | ⟨_, h'', rfl, n, rfl, hrest⟩
  · cases hc
  rcases at_bind.1 hrest with hconf | ⟨⟨⟩, h₁, h₂, hconf, -, rfl⟩
  · exact absurd hconf ((req.configure_uses child).not_at (by decide) hk)
  · have hwrite := List.mem_append_left h₂ (configure_releases hconf)
    exact List.mem_filterMap.2 ⟨_, List.mem_cons_of_mem _ (List.mem_cons_of_mem _ hwrite), rfl⟩

/-- How far a handshake has come is seen from its cues. -/
theorem script_cases {l : List Cue} (hl : l <+: script) :
    (.signal ∉ l → l = []) ∧ (.resume ∈ l → l = script) ∧
      (.receive ∈ l → .release ∉ l → l = [.signal, .receive]) ∧
      (.release ∈ l → [.signal, .receive, .release] <+: l) :=
  (by decide : ∀ l ∈ script.inits, (.signal ∉ l → l = []) ∧ (.resume ∈ l → l = script) ∧
    (.receive ∈ l → .release ∉ l → l = [.signal, .receive]) ∧
    (.release ∈ l → [.signal, .receive, .release] <+: l)) l ((List.mem_inits l script).2 hl)

/-- The launch has four stages between the hand-overs. A process about to write the id maps is the
    supervisor, which has received the signal and not released the child. A process that begins
    or ends its mount work is the child, and nothing has been handed over; in the other mode
    everything has. So it has before the workload and what prepares it, and the supervisor waits for
    the child's end only when it has released it. -/
theorem wrap_script (hr : linux.Reachable root req.wrap s₀ cfg) :
    cues cfg.trace <+: script ∧
    ∀ pid h c k, cfg.procs pid = some ⟨h, .call (I := calls) c k⟩ →
      (c.kind ∈ [.enterUserns, .userns] → pid = root ∧ cues cfg.trace = [.signal, .receive]) ∧
      (c.kind ∈ [.enterPivot, .pivot] →
        pid ≠ root ∧ cues cfg.trace = if req.skipTwoStage then script else []) ∧
      (c.kind ∈ lateKinds → pid ≠ root ∧ cues cfg.trace = script) ∧
      (c.kind = .wait → pid = root ∧ [.signal, .receive, .release] <+: cues cfg.trace) := by
  have hscript := cues_prefix hr
  obtain ⟨hnone, hall, hhalf, hmost⟩ := script_cases hscript
  refine ⟨hscript, fun pid h c k hproc => ?_⟩
  have hsolo : ∀ {ks : List Call.Kind}, c.kind ∈ ks → (∀ k ∈ soloKinds, k ∉ ks) →
      ∃ child h₀ h₁ h₂ p₁ p₂, req.Pair root s₀ cfg child h₀ h₁ h₂ p₁ p₂ ∧
        ((pid = root ∧ h = h₀ ++ ⟨.fork, .ok (.parent child)⟩ :: h₁ ∧
            (req.supervise child).At h₁ c) ∨
          (pid = child ∧ h = h₀ ++ ⟨.fork, .ok .child⟩ :: h₂ ∧ req.childMain.At h₂ c)) :=
    fun hc hks => (process_cases hr hproc).resolve_left fun hs => hks _ hs.2.1 hc
  refine ⟨fun hc => ?_, fun hc => ?_, fun hc => ?_, fun hc => ?_⟩
  · -- the id maps
    obtain ⟨child, h₀, h₁, h₂, p₁, p₂, hp, hcase⟩ := hsolo hc (by decide)
    obtain ⟨hperm, hroot, hchild⟩ := hp.cues_perm
    rcases hcase with ⟨rfl, -, hat⟩ | ⟨-, -, hat⟩
    · obtain ⟨u, n, h', rfl, hconf⟩ := supervise_at_configure hat (.inl hc)
      obtain ⟨-, k', hreach⟩ := configure_at_userns hconf hc
      have hnil := cues_eq_nil_of_uses (req.prepareUserns_uses _) (by decide) hreach
      have hone : (⟨.storeChildPid child, u⟩ :: ⟨.efdRead .parent, .ok n⟩ :: h' :
          List Event).filterMap cue = [.receive] := congrArg (Cue.receive :: ·) hnil
      rw [hone] at hperm
      refine ⟨rfl, hhalf (hperm.mem_iff.2 List.mem_cons_self) fun hin => ?_⟩
      rcases List.mem_cons.1 (hperm.mem_iff.1 hin) with heq | hin
      · cases heq
      · exact absurd (hchild.subset hin) (by decide)
    · exact absurd hat (req.childMain_uses.not_at (by decide) hc)
  · -- the mounts
    obtain ⟨child, h₀, h₁, h₂, p₁, p₂, hp, hcase⟩ := hsolo hc (by decide)
    obtain ⟨hperm, hroot, hchild⟩ := hp.cues_perm
    rcases hcase with ⟨-, -, hat⟩ | ⟨rfl, -, hat⟩
    · exact absurd hat ((req.supervise_uses child).not_at (by decide) hc)
    · refine ⟨hp.ne, ?_⟩
      rcases childMain_at_pivot hat hc with ⟨hskip, hnil⟩ | ⟨hskip, hin⟩
      · rw [hskip]
        rw [hnil, List.append_nil] at hperm
        exact hnone fun hin => absurd (hroot.subset (hperm.mem_iff.1 hin)) (by decide)
      · rw [hskip]
        exact hall (hperm.mem_iff.2 (List.mem_append_right _ hin))
  · -- the workload and what prepares it
    obtain ⟨h₀, h₁, h₂, p₁, p₂, hp, -, hat⟩ := late_cases hr hproc hc
    obtain ⟨hs, n, h', rfl, -, -⟩ := childMain_at_late hat hc
    obtain ⟨hperm, -, -⟩ := hp.cues_perm
    refine ⟨hp.ne, hall (hperm.mem_iff.2 (List.mem_append_right _ ?_))⟩
    exact List.mem_filterMap.2 ⟨⟨.efdRead .child, .ok n⟩, by simp, rfl⟩
  · -- the end
    have hk : c.kind ∈ [.wait] := by simp [hc]
    obtain ⟨child, h₀, h₁, h₂, p₁, p₂, hp, hcase⟩ := hsolo hk (by decide)
    obtain ⟨hperm, -, -⟩ := hp.cues_perm
    rcases hcase with ⟨rfl, -, hat⟩ | ⟨-, -, hat⟩
    · exact ⟨rfl, hmost (hperm.mem_iff.2 (List.mem_append_left _ (supervise_at_wait hat hc)))⟩
    · exact absurd hat (req.childMain_uses.not_at (by decide) hk)

/-- A container with a user namespace comes to its workload through all of it. -/
theorem wrap_script_simple : ∃ cfg h k,
    linux.Reachable 1 (simple [.user, .mount]).wrap .fresh cfg ∧
    cfg.procs 2 = some ⟨h, .call (I := calls) (.execvpe "/bin/true" ["/bin/true"] []) k⟩ ∧
    cues cfg.trace = [.signal, .receive, .release, .resume] := by
  have hforks := forks_of_succeeds (simple [.user, .mount]) succeeding 1 2
    ⟨(), by decide⟩ rfl (by decide)
  obtain ⟨cfg, h, k, hr, hproc⟩ := childRest_comes_to
    (c := .execvpe "/bin/true" ["/bin/true"] []) .fresh hforks ⟨(), by decide⟩ rfl ⟨(), by decide⟩
    rfl (fun s h₁ e h₂ heq _ => childRest_allows (by decide) s h₁ e h₂ heq) (by decide)
  obtain ⟨-, hwhen⟩ := wrap_script (linux_of_under hr)
  obtain ⟨-, -, hlate, -⟩ := hwhen 2 _ _ _ hproc
  exact ⟨cfg, h, k, linux_of_under hr, hproc, (hlate (by simp [Call.kind, lateKinds])).2⟩

end CreateRequest

end Styrolite
