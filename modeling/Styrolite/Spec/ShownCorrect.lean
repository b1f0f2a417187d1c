import Styrolite.ForStd.Extended
import Styrolite.Spec.CgroupWritesCorrect
import Styrolite.Spec.DescriptorCorrect
import Styrolite.Spec.FrameCorrect
import Styrolite.Spec.NamespaceCorrect
import Styrolite.Spec.RenderCorrect

/-!
# The hostname and the boot time of a container

A UTS namespace has a hostname, and a time namespace an offset to the boot time, which
can be set until a process enters the namespace. A new namespace begins with what
its maker's shows. Here the kernel keeps them beside the namespaces themselves.

Both are settings of the kernel too, and so a file below `/proc/sys` may be one of
them. The limits of a request may have any keys, and with them `prepare_cgroup`
writes to any path, so that what is proved here is under the condition that the
files of the control groups are none of the settings.

## Key results

- `readOffset_bootText`: the offset that `update_boottime` asks for
- `CreateRequest.wrap_writesCgroup`: the files that are written by their paths
- `CreateRequest.wrap_shows`: what the workload sees and what all others go on to see
-/

namespace Styrolite

open Prog Kernel

/-! ## The offset that is written -/

/-- A decimal number that may be negative. -/
def readSigned : List Char → Option Int
  | '-' :: cs => (Decimal.read cs).map fun n => -n
  | cs => (Decimal.read cs).map fun n => n

/-- The offset of the boot time in whole seconds that a line of `timens_offsets` asks for. -/
def readOffset (text : String) : Option Int :=
  match words text.toList with
  | [clock, secs, nanos] =>
    if clock = "boottime".toList ∧ nanos = ['0'] then readSigned secs else none
  | _ => none

/-- What `update_boottime` writes at the boot time `t`. -/
def bootText (t : Int) : String :=
  "boottime " ++ (if t - 1 ≤ 0 then "0" else "-" ++ toString (t - 1)) ++ " 0\n"

/-- The line sets the boot time of the container to one second, if it is not less already. -/
theorem readOffset_bootText (t : Int) : readOffset (bootText t) = some (min 0 (1 - t)) := by
  -- Whatever the second word is, the line has three
  have hwords : ∀ {secs : List Char}, secs ≠ [] → (∀ c ∈ secs, isWhitespace c = false) →
      words ("boottime " ++ String.ofList secs ++ " 0\n").toList =
        ["boottime".toList, secs, ['0']] := by
    intro secs hne hsecs
    have htext : ("boottime " ++ String.ofList secs ++ " 0\n").toList =
        "boottime".toList ++ ' ' :: (secs ++ ' ' :: ['0', '\n']) := by simp
    rw [htext, words_append_space, words_append_space, words_of_noSpace hne hsecs]
    have hclock : words "boottime".toList = ["boottime".toList] := by decide
    have hnanos : words ['0', '\n'] = [['0']] := by decide
    rw [hclock, hnanos]
    rfl
  unfold bootText
  -- The offset is zero, or negative
  split
  · next hle =>
    have hread : readOffset ("boottime " ++ "0" ++ " 0\n") = some 0 := by decide
    rw [hread, min_eq_left (by omega)]
  · next hlt =>
    obtain ⟨n, hn⟩ := Int.eq_ofNat_of_zero_le (by omega : 0 ≤ t - 1)
    have hsecs : "-" ++ toString (t - 1) = String.ofList ('-' :: (toString n).toList) := by
      have hstring : toString (n : Int) = toString n := rfl
      rw [hn, hstring, ← String.toList_inj]
      simp only [String.toList_append, String.toList_ofList, String.reduceToList,
        List.cons_append, List.nil_append]
    rw [hsecs, readOffset, hwords (List.cons_ne_nil _ _)]
    · simp only [and_self, if_true, readSigned, Decimal.read_toString]
      show some (-(n : Int)) = _
      rw [min_eq_right (by omega)]
      exact congrArg some (by omega)
    · intro c hc
      rcases List.mem_cons.1 hc with rfl | hc
      · decide
      · exact isWhitespace_of_mem_toString hc

/-- `update_boottime` reads the clock and makes one write. -/
theorem CreateRequest.updateBoottime_runs {h : List Event} {out : Outcome Err Unit}
    (hr : updateBoottime.Runs h out) : ∃ (r : Except Errno Int) (a : Except Errno Unit),
      h = [⟨.clockGettimeBoottime, r⟩,
        ⟨.procWrite .timensOffsets (bootText (r.toOption.getD 0)), a⟩] := by
  unfold updateBoottime getBoottime at hr
  rw [bind_assoc] at hr
  obtain ⟨r, h', rfl, hr₁⟩ := runs_sys_bind.1 hr
  -- The write is the last call, refused or not
  have hwrite : ∀ {t : Int} {h' : List Event}, (sys (.procWrite .timensOffsets (bootText t)) >>=
      fun a => check a).Runs h' out → ∃ a, h' = [⟨.procWrite .timensOffsets (bootText t), a⟩] := by
    intro t h' hr'
    obtain ⟨a, h'', rfl, hcheck⟩ := runs_sys_bind.1 hr'
    refine ⟨a, ?_⟩
    cases a with
    | ok u => rw [(runs_done.1 hcheck).1]
    | error e => rw [(runs_done.1 hcheck).1]
  -- A clock that cannot be read counts as zero
  cases r with
  | ok t =>
    obtain ⟨a, rfl⟩ := hwrite (t := t) hr₁
    exact ⟨.ok t, a, rfl⟩
  | error e =>
    obtain ⟨a, rfl⟩ := hwrite (t := 0) hr₁
    exact ⟨.error e, a, rfl⟩

/-! ## What namespaces show -/

/-- What is to be seen in the UTS and in the time namespaces. -/
structure Shown where
  hostname : Nat → String
  /-- What is added to the boot time. -/
  offset : Nat → Int
  /-- A process has been in the time namespace. -/
  entered : Nat → Bool

namespace Shown

/-- The offset of the namespace for the children is set while it is empty. -/
def allows (w : World) (s : Shown) (p : Int) (c : Call) (a : c.Answer) : Prop :=
  match c, a with
  | .procWrite .timensOffsets text, .ok () =>
    s.entered (w.ns.forChildren p .time) = false ∧ (readOffset text).isSome
  | _, _ => True

/-- What is shown after a call and its answer. A file that is written by its path may be one of the
    kernel's settings, which depends on what is mounted where: `written` says what comes of it. -/
def next (written : World → Shown → Int → String → String → Shown) (w : World) (s : Shown) (p : Int)
    (c : Call) (a : c.Answer) : Shown :=
  let new := w.ns.serial + 1
  match c, a with
  | .unshare flags, .ok () =>
    { hostname := if Namespace.uts.inFlags flags
        then Function.update s.hostname new (s.hostname (w.ns.ns p .uts)) else s.hostname
      offset := if Namespace.time.inFlags flags
        then Function.update s.offset new (s.offset (w.ns.forChildren p .time)) else s.offset
      entered := if Namespace.time.inFlags flags
        then Function.update s.entered new false else s.entered }
  | .sethostname name, .ok () =>
    { s with hostname := Function.update s.hostname (w.ns.ns p .uts) name }
  | .procWrite .timensOffsets text, .ok () =>
    { s with
      offset := Function.update s.offset (w.ns.forChildren p .time) ((readOffset text).getD 0) }
  | .fork, .ok (.parent _) =>
    { s with entered := Function.update s.entered (w.ns.forChildren p .time) true }
  | .fsWrite path text, .ok () => written w s p path text
  | _, _ => s

/-- The file is none of the kernel's settings. -/
def Plain (written : World → Shown → Int → String → String → Shown) (path : String) : Prop :=
  ∀ w s p text, written w s p path text = s

/-- The call writes no file of the kernel's settings by its path. -/
def Spares (written : World → Shown → Int → String → String → Shown) (c : Call) : Prop :=
  ∀ path text, c = .fsWrite path text → Plain written path

/-- `allows` as a test. -/
def takes (w : World) (s : Shown) (p : Int) : Event → Bool
  | ⟨.procWrite .timensOffsets text, .ok ()⟩ =>
    !s.entered (w.ns.forChildren p .time) && (readOffset text).isSome
  | _ => true

/-- All is as the first process has made it. -/
def host : Shown where
  hostname _ := "host"
  offset _ := 0
  entered id := id == 0

end Shown

/-- Linux with what its namespaces show. -/
def showing (written : World → Shown → Int → String → String → Shown) :
    Kernel calls Int (World × Shown) := linux.extend Shown.allows (Shown.next written)

/-- The event sets an offset. -/
def SetsOffset (e : Event) : Prop := ∃ text, e = ⟨.procWrite .timensOffsets text, .ok ()⟩

namespace Shown

variable {written : World → Shown → Int → String → String → Shown} {w : World} {s : Shown} {p : Int}
  {c : Call} {a : c.Answer}

/-- The kinds of calls that set hostnames, make namespaces or enter them. -/
def kinds : List Call.Kind := [.uts, .ns, .fork]

/-- A call of another kind shows nothing new. -/
theorem next_of_kind (hc : c.kind ∉ kinds) (hno : ¬ SetsOffset ⟨c, a⟩) (hsp : Spares written c) :
    s.next written w p c a = s := by
  unfold next
  split
  · exact absurd (by simp [Call.kind, kinds]) hc
  · exact absurd (by simp [Call.kind, kinds]) hc
  · exact absurd ⟨_, rfl⟩ hno
  · exact absurd (by simp [Call.kind, kinds]) hc
  · exact hsp _ _ rfl _ _ _ _
  · rfl

/-- Only a call about files writes one. -/
theorem spares_of_kind (hc : c.kind ≠ .file) : Spares written c := by
  rintro path text rfl
  exact absurd rfl hc

/-- No offset is set in a namespace that has been entered. -/
theorem not_setsOffset (ha : s.allows w p c a)
    (hin : s.entered (w.ns.forChildren p .time) = true) : ¬ SetsOffset ⟨c, a⟩ := by
  rintro ⟨text, heq⟩
  cases heq
  exact Bool.false_ne_true (ha.1.symm.trans hin)

end Shown

variable {written : World → Shown → Int → String → String → Shown} {s t u s₀ : World × Shown}
  {p root : Int} {h : List Event} {c : Call} {a : c.Answer}

/-- The namespaces go their own way. -/
@[simp] theorem showing_after_ns (s : World × Shown) (p : Int) (h : List Event) :
    ((showing written).after s p h).1.ns = s.1.ns.after p h := by
  rw [showing, extend_after_fst, linux_after_ns]

/-- A lawful history is lawful after each of its beginnings. -/
theorem showing_right (h₁ : List Event) {h₂ : List Event}
    (hl : (showing written).Lawful s p (h₁ ++ h₂)) :
    (showing written).Lawful ((showing written).after s p h₁) p h₂ := hl.right fun ha => ha

/-! ## Calls that make no namespace -/

/-- From one state to the other the namespaces are the same, and what they show too but for the
    hostname of the caller's and the offset for its children, who have to be the first. -/
structure Settled (p : Int) (s t : World × Shown) : Prop where
  ns : t.1.ns = s.1.ns
  entered : t.2.entered = s.2.entered
  hostname : ∀ id, id ≠ s.1.ns.ns p .uts → t.2.hostname id = s.2.hostname id
  offset : ∀ id, id ≠ s.1.ns.forChildren p .time ∨ s.2.entered id = true →
    t.2.offset id = s.2.offset id

/-- Nothing has happened. -/
theorem Settled.refl (p : Int) (s : World × Shown) : Settled p s s :=
  ⟨rfl, rfl, fun _ _ => rfl, fun _ _ => rfl⟩

/-- One settled stretch after another. -/
theorem Settled.trans (h₁ : Settled p s t) (h₂ : Settled p t u) : Settled p s u where
  ns := h₂.ns.trans h₁.ns
  entered := h₂.entered.trans h₁.entered
  hostname id hid := (h₂.hostname id (by rwa [h₁.ns])).trans (h₁.hostname id hid)
  offset id hid := (h₂.offset id (by rwa [h₁.ns, h₁.entered])).trans (h₁.offset id hid)

/-- A call that makes and joins no namespace settles. -/
theorem settled_next (hc : c.kind ∉ nsKinds) (hsp : Shown.Spares written c)
    (ha : (showing written).allows s p h c a) :
    Settled p s ((showing written).next s p c a) := by
  have hshown : (s.2.next written s.1 p c a).entered = s.2.entered ∧
      (∀ id, id ≠ s.1.ns.ns p .uts → (s.2.next written s.1 p c a).hostname id = s.2.hostname id) ∧
      ∀ id, id ≠ s.1.ns.forChildren p .time ∨ s.2.entered id = true →
        (s.2.next written s.1 p c a).offset id = s.2.offset id := by
    unfold Shown.next
    split
    · exact absurd (by simp [Call.kind, nsKinds]) hc
    · exact ⟨rfl, fun id hid => Function.update_of_ne hid _ _, fun _ _ => rfl⟩
    · -- an offset is set in a namespace that is empty
      refine ⟨rfl, fun _ _ => rfl, fun id hid => Function.update_of_ne ?_ _ _⟩
      rcases hid with hne | hin
      · exact hne
      · rintro rfl
        exact Bool.false_ne_true (ha.2.1.symm.trans hin)
    · exact absurd (by simp [Call.kind, nsKinds]) hc
    · rw [hsp _ _ rfl]
      exact ⟨rfl, fun _ _ => rfl, fun _ _ => rfl⟩
    · exact ⟨rfl, fun _ _ => rfl, fun _ _ => rfl⟩
  exact ⟨NsState.next_of_kind _ _ _ hc, hshown.1, hshown.2.1, hshown.2.2⟩

/-- So does a history of such calls. -/
theorem settled_after (hk : ∀ e ∈ h, e.call.kind ∉ nsKinds)
    (hsp : ∀ e ∈ h, Shown.Spares written e.call) (hl : (showing written).Lawful s p h) :
    Settled p s ((showing written).after s p h) := by
  induction h using List.reverseRecOn with
  | nil => exact .refl p s
  | append_singleton h e ih =>
    rw [Kernel.after_append]
    exact (ih (fun e' he' => hk e' (List.mem_append_left _ he'))
        (fun e' he' => hsp e' (List.mem_append_left _ he')) hl.left).trans
      (settled_next (hk e (by simp)) (hsp e (by simp)) (hl h e [] rfl))

/-- Calls on files leave the namespaces. -/
theorem files_after_ns (hk : ∀ e ∈ h, e.call.kind ∈ [.env, .file]) :
    ((showing written).after s p h).1.ns = s.1.ns := by
  have hdisj : ∀ k ∈ [Call.Kind.env, .file], k ∉ nsKinds := by decide
  rw [showing_after_ns]
  exact NsState.after_of_kind _ _ fun e he => hdisj _ (hk e he)

/-- Calls on files change nothing that is shown, if there is a process in the time namespace. -/
theorem entered_after (hk : ∀ e ∈ h, e.call.kind ∈ [.env, .file])
    (hsp : ∀ e ∈ h, Shown.Spares written e.call)
    (hin : s.2.entered (s.1.ns.forChildren p .time) = true) (hl : (showing written).Lawful s p h) :
    ((showing written).after s p h).2 = s.2 ∧ ∀ e ∈ h, ¬ SetsOffset e := by
  -- From the end of the history: the namespace has been entered, so no offset is accepted
  induction h using List.reverseRecOn with
  | nil => exact ⟨rfl, List.forall_mem_nil _⟩
  | append_singleton h e ih =>
    have hk' : ∀ e' ∈ h, e'.call.kind ∈ [.env, .file] := fun e' he' =>
      hk e' (List.mem_append_left _ he')
    obtain ⟨hshown, hno⟩ := ih hk' (fun e' he' => hsp e' (List.mem_append_left _ he')) hl.left
    have hns : ((showing written).after s p h).1.ns = s.1.ns := files_after_ns hk'
    have hset : ¬ SetsOffset e := Shown.not_setsOffset (hl h e [] rfl).2 (by rw [hns, hshown, hin])
    refine ⟨?_, fun e' he' => ?_⟩
    · have hdisj : ∀ k ∈ [Call.Kind.env, .file], k ∉ Shown.kinds := by decide
      rw [Kernel.after_append]
      exact (Shown.next_of_kind (hdisj _ (hk e (by simp))) hset (hsp e (by simp))).trans hshown
    · rcases List.mem_append.1 he' with he' | he'
      · exact hno e' he'
      · rwa [List.mem_singleton.1 he']

/-- An offset is set by writing a file. -/
theorem SetsOffset.kind {e : Event} (he : SetsOffset e) : e.call.kind = .file := by
  obtain ⟨text, rfl⟩ := he
  rfl

/-- Nothing else sets an offset. -/
theorem not_setsOffset_of_kind {e : Event} (hk : e.call.kind ≠ .file) : ¬ SetsOffset e :=
  fun he => hk he.kind

/-- The calls at the end of the setup set no offset. -/
theorem same_no_offset (hk : ∀ e ∈ h, e.call.kind ∈ [.rlimit, .signal, .eventfd]) :
    ∀ e ∈ h, ¬ SetsOffset e := by
  have hdisj : ∀ k ∈ [Call.Kind.rlimit, .signal, .eventfd], k ≠ .file := by decide
  exact fun e he => not_setsOffset_of_kind (hdisj _ (hk e he))

/-- They show nothing new. -/
theorem same_after (hk : ∀ e ∈ h, e.call.kind ∈ [.rlimit, .signal, .eventfd]) :
    ((showing written).after s p h).2 = s.2 := by
  have hno := same_no_offset hk
  induction h generalizing s with
  | nil => rfl
  | cons e h ih =>
    rw [Kernel.after_cons, ih (fun e' he' => hk e' (List.mem_cons_of_mem _ he'))
      fun e' he' => hno e' (List.mem_cons_of_mem _ he')]
    have hdisj : ∀ k ∈ [Call.Kind.rlimit, .signal, .eventfd], k ∉ Shown.kinds ∧ k ≠ .file := by
      decide
    obtain ⟨hkinds, hfile⟩ := hdisj _ (hk e List.mem_cons_self)
    exact Shown.next_of_kind hkinds (hno e List.mem_cons_self) (Shown.spares_of_kind hfile)

/-! ## New namespaces -/

/-- The hostname's namespace after an `unshare`. -/
theorem NsState.unshare_ns_uts (s : NsState) (p : Int) (flags : CInt) :
    (s.unshare p flags).ns p .uts =
      if Namespace.uts.inFlags flags then s.serial + 1 else s.ns p .uts := by
  have huts : ¬ Namespace.uts.deferred := by decide
  simp [unshare, huts]

/-- The children's time namespace after an `unshare`. -/
theorem NsState.unshare_forChildren_time (s : NsState) (p : Int) (flags : CInt) :
    (s.unshare p flags).forChildren p .time =
      if Namespace.time.inFlags flags then s.serial + 1 else s.forChildren p .time := by
  simp [unshare]

/-- A new namespace changes nothing about those that are there. -/
theorem next_unshare_old (flags : CInt) {id : Nat} (hid : id ≤ s.1.ns.serial) :
    ((showing written).next s p (.unshare flags) (.ok ())).2.hostname id = s.2.hostname id ∧
      ((showing written).next s p (.unshare flags) (.ok ())).2.offset id = s.2.offset id ∧
      ((showing written).next s p (.unshare flags) (.ok ())).2.entered id = s.2.entered id := by
  have hne : id ≠ s.1.ns.serial + 1 := by omega
  show (ite _ _ _ : Nat → String) id = _ ∧ (ite _ _ _ : Nat → Int) id = _ ∧
    (ite _ _ _ : Nat → Bool) id = _
  refine ⟨?_, ?_, ?_⟩ <;> split <;> first | rfl | exact Function.update_of_ne hne _ _

/-- The caller goes on to see what it saw. -/
theorem next_unshare_own (flags : CInt) :
    ((showing written).next s p (.unshare flags) (.ok ())).2.hostname
        ((s.1.ns.unshare p flags).ns p .uts) = s.2.hostname (s.1.ns.ns p .uts) ∧
      ((showing written).next s p (.unshare flags) (.ok ())).2.offset
        ((s.1.ns.unshare p flags).forChildren p .time) =
          s.2.offset (s.1.ns.forChildren p .time) := by
  simp only [showing, extend, Shown.next, NsState.unshare_ns_uts, NsState.unshare_forChildren_time]
  constructor
  · by_cases hin : Namespace.uts.inFlags flags <;> simp [hin]
  · by_cases hin : Namespace.time.inFlags flags <;> simp [hin]

namespace CreateRequest

variable {req : CreateRequest} {cfg : Config calls Int (World × Shown) Err Unit}

/-- A process that has not forked is before its `unshare`, or has been refused it, or goes on in
    the new namespaces. -/
theorem wrap_reaches_alone {q : Sys Unit} (hr : req.wrap.Reaches h q)
    (hfork : ∀ a, (⟨.fork, a⟩ : Event) ∈ h → ∃ e, a = .error e) :
    ∃ h₁, (∀ e ∈ h₁, e.call.kind ∈ [.env, .file]) ∧
      (h = h₁ ∨ (∃ flags err, h = h₁ ++ [⟨.unshare flags, .error err⟩]) ∨
        ∃ h₂ h₃,
          h = h₁ ++ ⟨.unshare (Namespace.cloneFlags req.firstLevelNs), .ok ()⟩ :: (h₂ ++ h₃) ∧
          (∀ e ∈ h₂, e.call.kind ∉ nsKinds) ∧
          (h₃ = [] ∨ ∃ err, h₃ = [⟨.fork, .error err⟩])) := by
  have hcg : Uses (Call.within [.env, .file]) (attempt req.prepareCgroup) :=
    .attempt req.prepareCgroup_uses
  have hset : ∀ {h₂ q}, req.setup.Reaches h₂ q → ∀ e ∈ h₂, e.call.kind ∉ nsKinds := by
    intro h₂ q hr₂ e he hin
    obtain ⟨l₁, l₂, rfl⟩ := List.append_of_mem he
    exact req.setup_uses.not_at (by decide) hin hr₂.at_of_split
  rw [wrap_eq] at hr
  rcases reaches_bind.1 hr with ⟨_, hr₁, -⟩ | ⟨⟨⟩, h₀, h₃, hr₁, hr₃, rfl⟩
  · -- in the prologue
    rcases reaches_bind.1 hr₁ with ⟨_, hr₂, -⟩ | ⟨_, h₁, h₂, hr₂, hr₃, rfl⟩
    · exact ⟨h, fun e he => hcg.mem hr₂ he, .inl rfl⟩
    refine ⟨h₁, fun e he => hcg.mem hr₂ he, ?_⟩
    rcases reaches_bind.1 hr₃ with ⟨_, hr₄, -⟩ | ⟨⟨⟩, h₄, h₅, hr₄, hr₅, rfl⟩
    · rcases reaches_call.1 hr₄ with ⟨rfl, -⟩ | ⟨a, h₅, rfl, hr₅⟩
      · exact .inl (List.append_nil _)
      · cases a with
        | error err =>
          obtain ⟨rfl, -⟩ := reaches_done.1 hr₅
          exact .inr (.inl ⟨_, err, rfl⟩)
        | ok u =>
          obtain ⟨rfl, -⟩ := reaches_done.1 hr₅
          exact .inr (.inr ⟨[], [], rfl, List.forall_mem_nil _, .inl rfl⟩)
    · rw [unshare_runs.1 hr₄]
      exact .inr (.inr ⟨h₅, [], by simp, hset hr₅, .inl rfl⟩)
  · -- after it, where only a fork that is refused may follow
    obtain ⟨h₁, h₂, rfl, ⟨_, hr₂⟩, hr₄⟩ := prologue_runs hr₁
    refine ⟨h₁, fun e he => hcg.mem hr₂ he, .inr (.inr ⟨h₂, h₃, by simp, hset hr₄, ?_⟩)⟩
    rcases reaches_call.1 hr₃ with ⟨rfl, -⟩ | ⟨a, h₄, rfl, hr₅⟩
    · exact .inl rfl
    · obtain ⟨err, rfl⟩ := hfork a (by simp)
      obtain ⟨rfl, -⟩ := reaches_done.1 hr₅
      exact .inr ⟨err, rfl⟩

/-- The namespaces that are there have the hostnames and the offsets that they had, but for the
    hostname where no UTS namespace is requested. -/
def OthersShown (req : CreateRequest) (root : Int) (s₀ s : World × Shown) : Prop :=
  ∀ id ≤ s₀.1.ns.serial,
    (.uts ∈ req.targetNs ∨ id ≠ s₀.1.ns.ns root .uts →
      s.2.hostname id = s₀.2.hostname id) ∧ s.2.offset id = s₀.2.offset id

/-- Until the fork the other namespaces are left alone. -/
theorem others_after (hs₀ : s₀.1.Initial root)
    (hin : s₀.2.entered (s₀.1.ns.ns root .time) = true) {q : Sys Unit}
    (hr : req.wrap.Reaches h q) (hfork : ∀ a, (⟨.fork, a⟩ : Event) ∈ h → ∃ e, a = .error e)
    (hsp : ∀ e ∈ h, Shown.Spares written e.call) (hl : (showing written).Lawful s₀ root h) :
    req.OthersShown root s₀ ((showing written).after s₀ root h) := by
  obtain ⟨h₁, hk₁, hcase⟩ := wrap_reaches_alone hr hfork
  have hin₁ : s₀.2.entered (s₀.1.ns.forChildren root .time) = true := by rwa [hs₀.forChildren]
  have hpre : h₁ <+: h := by
    rcases hcase with rfl | ⟨_, _, rfl⟩ | ⟨_, _, rfl, -⟩
    · exact List.prefix_refl _
    · exact List.prefix_append _ _
    · exact List.prefix_append _ _
  have hl₁ : (showing written).Lawful s₀ root h₁ := by
    obtain ⟨h₂, rfl⟩ := hpre
    exact hl.left
  obtain ⟨hsame, -⟩ := entered_after hk₁ (fun e he => hsp e (hpre.subset he)) hin₁ hl₁
  have hns₁ : ((showing written).after s₀ root h₁).1.ns = s₀.1.ns := files_after_ns hk₁
  rcases hcase with rfl | ⟨flags, err, rfl⟩ | ⟨h₂, h₃, rfl, hk₂, hk₃⟩
  · -- No namespace has been made
    exact fun id _ => by rw [hsame]; exact ⟨fun _ => rfl, rfl⟩
  · -- The `unshare` was refused
    intro id _
    rw [Kernel.after_append]
    have hrefused : ((showing written).after ((showing written).after s₀ root h₁) root
        [⟨.unshare flags, .error err⟩]).2 = s₀.2 := hsame
    rw [hrefused]
    exact ⟨fun _ => rfl, rfl⟩
  · -- The calls in the new namespaces are about these, or about a time namespace that is not empty
    generalize hA : (showing written).after s₀ root h₁ = A at hsame hns₁
    have hserial : A.1.ns.serial = s₀.1.ns.serial := by rw [hns₁]
    generalize hflags : Namespace.cloneFlags req.firstLevelNs = flags at hl ⊢
    have hl₂ : (showing written).Lawful
        ((showing written).next A root (.unshare flags) (.ok ())) root (h₂ ++ h₃) := by
      have hright := showing_right h₁ hl
      rw [hA] at hright
      exact showing_right [⟨.unshare flags, .ok ()⟩] hright
    obtain ⟨-, -, hhostname, hoffset⟩ :=
      settled_after hk₂ (fun e he => hsp e (by simp [he])) hl₂.left
    have hlast : ∀ u : World × Shown, ((showing written).after u root h₃).2 = u.2 := by
      intro u
      rcases hk₃ with rfl | ⟨err, rfl⟩ <;> rfl
    intro id hid
    have hid' : id ≤ A.1.ns.serial := by omega
    obtain ⟨hname, hoff, hent⟩ := next_unshare_old (p := root) flags hid'
    rw [Kernel.after_append, hA, Kernel.after_cons, Kernel.after_append, hlast]
    constructor
    · -- The hostname: of a new namespace, or of the process's own
      intro hown
      refine (hhostname id fun heq => ?_).trans (hname.trans (by rw [hsame]))
      have huts : id = (A.1.ns.unshare root flags).ns root .uts := heq
      rw [NsState.unshare_ns_uts] at huts
      split at huts
      · omega
      · next hno =>
        rw [← hflags, Namespace.inFlags_cloneFlags] at hno
        have hnot : .uts ∉ req.targetNs := fun hm => hno (mem_firstLevelNs.2 ⟨hm, .inr (by decide)⟩)
        exact (hown.resolve_left hnot) (by rw [huts, hns₁])
    · -- without a time namespace of its own, the process has one that has been entered
      refine (hoffset id ?_).trans (hoff.trans (by rw [hsame]))
      by_cases htime : Namespace.time.inFlags flags
      · refine .inl fun heq => ?_
        have hnew : id = (A.1.ns.unshare root flags).forChildren root .time := heq
        rw [NsState.unshare_forChildren_time, if_pos htime] at hnew
        omega
      · by_cases hown : id = s₀.1.ns.forChildren root .time
        · exact .inr (by rw [hent, hsame, hown, hin₁])
        · refine .inl fun heq => hown ?_
          have hold : id = (A.1.ns.unshare root flags).forChildren root .time := heq
          rw [NsState.unshare_forChildren_time, if_neg htime, hns₁] at hold
          exact hold

/-- A hostname after the history `h` is what `update_hostname` has set, or else still `old`. -/
def NameShown (req : CreateRequest) (old : String) (h : List Event) (name : String) : Prop :=
  (∃ n : Nat, (⟨.getpid, n⟩ : Event) ∈ h ∧ (⟨.sethostname name, .ok ()⟩ : Event) ∈ h ∧
    name = req.finalHostname n) ∨
  (∀ name', (⟨.sethostname name', .ok ()⟩ : Event) ∉ h) ∧ name = old

/-- An offset after the history `h` takes the boot time that was read, if any was, back to one
    second, and was set for a new namespace, or else it is still `old`. -/
def ClockShown (req : CreateRequest) (old : Int) (h : List Event) (offset : Int) : Prop :=
  (.time ∈ req.targetNs ∧ (∃ e ∈ h, SetsOffset e) ∧ ∃ r : Except Errno Int,
    (⟨.clockGettimeBoottime, r⟩ : Event) ∈ h ∧ offset = min 0 (1 - r.toOption.getD 0)) ∨
  (∀ e ∈ h, ¬ SetsOffset e) ∧ offset = old

/-- `update_hostname` asks for the pid and makes one call, if the name has no NUL. -/
theorem updateHostname_runs {out : Outcome Err Unit} (hr : req.updateHostname.Runs h out) :
    ∃ n : Nat, h = [⟨.getpid, n⟩] ∨ ∃ a : Except Errno Unit,
      h = [⟨.getpid, n⟩, ⟨.sethostname (req.finalHostname n), a⟩] := by
  unfold updateHostname identity at hr
  rw [bind_assoc] at hr
  obtain ⟨n, h', rfl, hr₁⟩ := runs_sys_bind.1 hr
  refine ⟨n, ?_⟩
  change Runs ((orFail (cString (req.finalHostname n))).mapErr _ >>= _) h' out at hr₁
  unfold cString at hr₁
  -- The name has a NUL byte, which ends the function before the call
  split at hr₁
  · rw [(runs_done.1 hr₁).1]
    exact .inl rfl
  · obtain ⟨a, h'', rfl, hr₂⟩ := runs_sys_bind.1 hr₁
    refine .inr ⟨a, ?_⟩
    cases a with
    | ok u => rw [(runs_done.1 hr₂).1]
    | error e => rw [(runs_done.1 hr₂).1]

/-- What the prologue has done before the fork: the control group, the new namespaces, the boot
    time, the hostname and the rest. -/
structure Prologue (req : CreateRequest) (h h₁ h₂ h₃ : List Event) (r : Except Errno Int)
    (a : Except Errno Unit) (n : Nat) : Prop where
  hist : h = h₁ ++ ⟨.unshare (Namespace.cloneFlags req.firstLevelNs), .ok ()⟩ ::
    ([⟨.clockGettimeBoottime, r⟩, ⟨.procWrite .timensOffsets (bootText (r.toOption.getD 0)), a⟩] ++
      (h₂ ++ h₃))
  before : ∀ e ∈ h₁, e.call.kind ∈ [.env, .file]
  hostname : h₂ = [⟨.getpid, n⟩] ∨ ∃ b : Except Errno Unit,
    h₂ = [⟨.getpid, n⟩, ⟨.sethostname (req.finalHostname n), b⟩]
  rest : ∀ e ∈ h₃, e.call.kind ∈ [.rlimit, .signal, .eventfd]

/-- A finished prologue has the parts of `Prologue`. -/
theorem prologue_of_runs (hr : req.prologue.Runs h (.ok ())) :
    ∃ h₁ h₂ h₃ r a n, req.Prologue h h₁ h₂ h₃ r a n := by
  -- The prologue in the order of the source
  obtain ⟨h₁, hset, rfl, ⟨_, hcg⟩, hsetup⟩ := prologue_runs hr
  obtain ⟨_, h₂, _, hboot, hr₁, rfl⟩ := runs_bind_ok.1 hsetup
  obtain ⟨_, h₃, h₄, hhost, htail, rfl⟩ := runs_bind_ok.1 hr₁
  obtain ⟨r, a, rfl⟩ : ∃ (r : Except Errno Int) (a : Except Errno Unit),
      h₂ = [⟨.clockGettimeBoottime, r⟩,
        ⟨.procWrite .timensOffsets (bootText (r.toOption.getD 0)), a⟩] := by
    rcases runs_attempt_ok.1 hboot with ⟨_, -, hrun⟩ | ⟨_, -, hrun⟩ <;>
      exact updateBoottime_runs hrun
  obtain ⟨n, hname⟩ : ∃ n : Nat, h₃ = [⟨.getpid, n⟩] ∨ ∃ b : Except Errno Unit,
      h₃ = [⟨.getpid, n⟩, ⟨.sethostname (req.finalHostname n), b⟩] := by
    rcases runs_attempt_ok.1 hhost with ⟨_, -, hrun⟩ | ⟨_, -, hrun⟩ <;>
      exact updateHostname_runs hrun
  exact ⟨h₁, h₃, h₄, r, a, n, rfl,
    fun e he => Uses.mem (.attempt req.prepareCgroup_uses) hcg he, hname,
    fun e he => req.setupTail_uses.mem (e := e) htail he⟩

variable {h₁ h₂ h₃ : List Event} {r : Except Errno Int} {b : Except Errno Unit} {n : Nat}

/-- Hostnames are set only where the hostname is. -/
theorem Prologue.mem_sethostname (hp : req.Prologue h h₁ h₂ h₃ r b n) {name : String}
    (he : (⟨.sethostname name, .ok ()⟩ : Event) ∈ h) :
    (⟨.sethostname name, .ok ()⟩ : Event) ∈ h₂ := by
  rw [hp.hist] at he
  simp only [List.mem_append, List.mem_cons, List.not_mem_nil, or_false] at he
  rcases he with he | heq | (heq | heq) | he | he
  · exact absurd (hp.before _ he) (by simp [Call.kind])
  · cases heq
  · cases heq
  · cases heq
  · exact he
  · exact absurd (hp.rest _ he) (by simp [Call.kind])

/-- After the new namespaces are made, no more are. -/
theorem Prologue.no_ns (hp : req.Prologue h h₁ h₂ h₃ r b n) {e : Event}
    (he : e ∈ [⟨.clockGettimeBoottime, r⟩,
      ⟨.procWrite .timensOffsets (bootText (r.toOption.getD 0)), b⟩] ++ (h₂ ++ h₃)) :
    e.call.kind ∉ nsKinds := by
  simp only [List.mem_append, List.mem_cons, List.not_mem_nil, or_false] at he
  rcases he with (rfl | rfl) | he | he
  · -- What is asked of the clock and written to its file
    simp [Call.kind, nsKinds]
  · simp [Call.kind, nsKinds]
  · rcases hp.hostname with rfl | ⟨a, rfl⟩
    · rw [List.mem_singleton.1 he]
      simp [Call.kind, nsKinds]
    · rcases List.mem_cons.1 he with rfl | he
      · simp [Call.kind, nsKinds]
      · rw [List.mem_singleton.1 he]
        simp [Call.kind, nsKinds]
  · -- The rest is about limits, signals and eventfds
    have hdisj : ∀ k ∈ [Call.Kind.rlimit, .signal, .eventfd], k ∉ nsKinds := by decide
    exact hdisj _ (hp.rest e he)

/-- The state when the new namespaces are made. -/
structure Begun (req : CreateRequest) (root : Int) (s₀ s : World × Shown) : Prop where
  ns : s.1.ns = s₀.1.ns.unshare root (Namespace.cloneFlags req.firstLevelNs)
  hostname : s.2.hostname (s.1.ns.ns root .uts) = s₀.2.hostname (s₀.1.ns.ns root .uts)
  offset : s.2.offset (s.1.ns.forChildren root .time) = s₀.2.offset (s₀.1.ns.ns root .time)
  entered : .time ∉ req.targetNs → s.2.entered (s.1.ns.forChildren root .time) = true

/-- The prologue up to its `unshare`, and the state that it has led to. -/
theorem Prologue.begun (hp : req.Prologue h h₁ h₂ h₃ r b n) (hs₀ : s₀.1.Initial root)
    (hin : s₀.2.entered (s₀.1.ns.ns root .time) = true)
    (hsp : ∀ e ∈ h, Shown.Spares written e.call) (hl : (showing written).Lawful s₀ root h) :
    (∀ e ∈ h₁, ¬ SetsOffset e) ∧ ∃ s, req.Begun root s₀ s ∧
      (showing written).Lawful s root ([⟨.clockGettimeBoottime, r⟩,
        ⟨.procWrite .timensOffsets (bootText (r.toOption.getD 0)), b⟩] ++ (h₂ ++ h₃)) ∧
      (showing written).after s₀ root h = (showing written).after s root
        ([⟨.clockGettimeBoottime, r⟩, ⟨.procWrite .timensOffsets (bootText (r.toOption.getD 0)), b⟩] ++
          (h₂ ++ h₃)) := by
  have hin₁ : s₀.2.entered (s₀.1.ns.forChildren root .time) = true := by rwa [hs₀.forChildren]
  rw [hp.hist] at hl hsp
  -- Up to the `unshare` nothing has touched names and clocks
  obtain ⟨hsame, hno⟩ := entered_after hp.before (fun e he => hsp e (List.mem_append_left _ he))
    hin₁ hl.left
  have hns : ((showing written).after s₀ root h₁).1.ns = s₀.1.ns := files_after_ns hp.before
  refine ⟨hno, (showing written).next ((showing written).after s₀ root h₁) root
    (.unshare (Namespace.cloneFlags req.firstLevelNs)) (.ok ()), ?_,
    showing_right [⟨.unshare _, .ok ()⟩] (showing_right h₁ hl), ?_⟩
  · -- What the `unshare` makes the supervisor's own
    generalize (showing written).after s₀ root h₁ = A at hsame hns
    have hnsB : ((showing written).next A root (.unshare (Namespace.cloneFlags req.firstLevelNs))
        (.ok ())).1.ns = A.1.ns.unshare root (Namespace.cloneFlags req.firstLevelNs) := rfl
    obtain ⟨hname, hoffset⟩ := next_unshare_own (s := A) (p := root)
      (Namespace.cloneFlags req.firstLevelNs)
    refine ⟨by rw [hnsB, hns], by rw [hnsB, hname, hns, hsame],
      by rw [hnsB, hoffset, hns, hsame, hs₀.forChildren], fun hno => ?_⟩
    -- Without a new time namespace the children's is the one it was
    have hflag : ¬ Namespace.time.inFlags (Namespace.cloneFlags req.firstLevelNs) := by
      rw [Namespace.inFlags_cloneFlags]
      exact fun hm => hno (mem_firstLevelNs.1 hm).1
    rw [hnsB, NsState.unshare_forChildren_time, if_neg hflag,
      (next_unshare_old _ (by rw [hns, hs₀.forChildren]; exact hs₀.bound _ _)).2.2,
      hsame, hns, hin₁]
  · rw [hp.hist, Kernel.after_append, Kernel.after_cons]

/-- Reading the clock and writing the offset. -/
private theorem boot_after (s : World × Shown) (p : Int) (text : String) (r : Except Errno Int)
    (a : Except Errno Unit) {t : World × Shown}
    (ht : (showing written).after s p
      [⟨.clockGettimeBoottime, r⟩, ⟨.procWrite .timensOffsets text, a⟩] = t) :
    t.1.ns = s.1.ns ∧ t.2.hostname = s.2.hostname ∧
      (a = .ok () → t.2.offset (s.1.ns.forChildren p .time) = (readOffset text).getD 0) ∧
      ∀ e, a = .error e → t.2.offset = s.2.offset := by
  subst ht
  cases a with
  | ok u => exact ⟨rfl, rfl, fun _ => Function.update_self _ _ _, fun _ heq => by cases heq⟩
  | error e => exact ⟨rfl, rfl, fun heq => (by cases heq), fun _ _ => rfl⟩

/-- The hostname is set by the call that succeeds. -/
private theorem hostname_after (s : World × Shown) (p : Int) (name : String) (n : Nat)
    (a : Except Errno Unit) {t : World × Shown}
    (ht : (showing written).after s p [⟨.getpid, n⟩, ⟨.sethostname name, a⟩] = t) :
    t.2.offset = s.2.offset ∧ (a = .ok () → t.2.hostname (s.1.ns.ns p .uts) = name) ∧
      ∀ e, a = .error e → t.2.hostname = s.2.hostname := by
  subst ht
  cases a with
  | ok u => exact ⟨rfl, fun _ => Function.update_self _ _ _, fun _ heq => by cases heq⟩
  | error e => exact ⟨rfl, fun heq => (by cases heq), fun _ _ => rfl⟩

/-- What a process and its children see when the prologue is over. -/
theorem Prologue.shows (hp : req.Prologue h h₁ h₂ h₃ r b n) (hs₀ : s₀.1.Initial root)
    (hin : s₀.2.entered (s₀.1.ns.ns root .time) = true)
    (hsp : ∀ e ∈ h, Shown.Spares written e.call) (hl : (showing written).Lawful s₀ root h) :
    req.NameShown (s₀.2.hostname (s₀.1.ns.ns root .uts)) h
      (((showing written).after s₀ root h).2.hostname
        (((showing written).after s₀ root h).1.ns.ns root .uts)) ∧
    req.ClockShown (s₀.2.offset (s₀.1.ns.ns root .time)) h
      (((showing written).after s₀ root h).2.offset
        (((showing written).after s₀ root h).1.ns.forChildren root .time)) := by
  obtain ⟨hno, s, hs, hls, hafter⟩ := hp.begun hs₀ hin hsp hl
  have hns : ((showing written).after s root ([⟨.clockGettimeBoottime, r⟩,
      ⟨.procWrite .timensOffsets (bootText (r.toOption.getD 0)), b⟩] ++ (h₂ ++ h₃))).1.ns =
      s.1.ns := by
    rw [showing_after_ns]
    exact NsState.after_of_kind _ _ fun e he => hp.no_ns he
  -- After the `unshare` come the clock, the hostname, and what concerns neither
  rw [hafter, hns, Kernel.after_append, Kernel.after_append, same_after hp.rest]
  generalize ht : (showing written).after s root [⟨.clockGettimeBoottime, r⟩,
    ⟨.procWrite .timensOffsets (bootText (r.toOption.getD 0)), b⟩] = t
  obtain ⟨hnst, hnamet, hokt, herrt⟩ := boot_after s root _ r b ht
  constructor
  · -- the hostname, which nothing has changed before it is set
    have hold : t.2.hostname (s.1.ns.ns root .uts) = s₀.2.hostname (s₀.1.ns.ns root .uts) := by
      rw [hnamet, hs.hostname]
    rcases hp.hostname with rfl | ⟨a, rfl⟩
    · exact .inr ⟨fun name hm => by simpa using hp.mem_sethostname hm, hold⟩
    · obtain ⟨-, hok, herr⟩ := hostname_after t root (req.finalHostname n) n a rfl
      cases a with
      | ok u =>
        have hname := hok rfl
        rw [hnst] at hname
        rw [hname]
        exact .inl ⟨n, by simp [hp.hist], by simp [hp.hist], rfl⟩
      | error e =>
        rw [herr e rfl]
        exact .inr ⟨fun name hm => by simpa using hp.mem_sethostname hm, hold⟩
  · -- the offset, which nothing changes after it is set
    have hoffset : ((showing written).after t root h₂).2.offset = t.2.offset := by
      rcases hp.hostname with rfl | ⟨a, rfl⟩
      · rfl
      · exact (hostname_after t root (req.finalHostname n) n a rfl).1
    rw [hoffset]
    cases b with
    | ok u =>
      -- It is taken only in a new namespace, which is empty
      have hempty : s.2.entered (s.1.ns.forChildren root .time) = false :=
        (hls [⟨.clockGettimeBoottime, r⟩] ⟨.procWrite .timensOffsets _, .ok ()⟩ (h₂ ++ h₃) rfl).2.1
      refine .inl ⟨?_, ⟨⟨.procWrite .timensOffsets (bootText (r.toOption.getD 0)), .ok ()⟩,
        by simp [hp.hist], ⟨_, rfl⟩⟩, r,
        by simp [hp.hist], by rw [hokt rfl, readOffset_bootText]; rfl⟩
      by_contra hnot
      exact Bool.false_ne_true (hempty.symm.trans (hs.entered hnot))
    | error e =>
      refine .inr ⟨fun e' he' => ?_, by rw [herrt e rfl, hs.offset]⟩
      rw [hp.hist] at he'
      simp only [List.mem_append, List.mem_cons, List.not_mem_nil, or_false] at he'
      rcases he' with he' | rfl | (rfl | rfl) | he' | he'
      · -- Neither before nor after this write has one been taken
        exact hno e' he'
      · exact not_setsOffset_of_kind (by simp [Call.kind])
      · exact not_setsOffset_of_kind (by simp [Call.kind])
      · rintro ⟨text, heq⟩
        cases heq
      · rcases hp.hostname with rfl | ⟨a, rfl⟩
        · rw [List.mem_singleton.1 he']
          exact not_setsOffset_of_kind (by simp [Call.kind])
        · rcases List.mem_cons.1 he' with rfl | he'
          · exact not_setsOffset_of_kind (by simp [Call.kind])
          · rw [List.mem_singleton.1 he']
            exact not_setsOffset_of_kind (by simp [Call.kind])
      · exact same_no_offset hp.rest e' he'

end CreateRequest

/-! ## After the fork -/

/-- From one state to the other nothing shown has changed, and nobody has changed namespaces but
    for the user namespace. -/
structure Rested (s t : World × Shown) : Prop where
  shown : t.2 = s.2
  ns : ∀ q k, k ≠ Namespace.user → t.1.ns.ns q k = s.1.ns.ns q k
  forChildren : ∀ q k, k ≠ Namespace.user → t.1.ns.forChildren q k = s.1.ns.forChildren q k

/-- The namespaces other than user namespaces stay as they are. -/
theorem NsState.next_rested (s : NsState) (p : Int) {c : Call} (a : c.Answer)
    (hc : c.kind ≠ .fork) (hns : c.kind = .ns → c = .unshare (Namespace.cloneFlags [.user]))
    {k : Namespace} (hk : k ≠ .user) (q : Int) :
    (s.next p c a).ns q k = s.ns q k ∧ (s.next p c a).forChildren q k = s.forChildren q k := by
  unfold next
  -- Of the calls on namespaces only the `unshare` of a user namespace comes up
  split
  · next flags =>
    obtain rfl : flags = Namespace.cloneFlags [.user] := Call.unshare.inj (hns rfl)
    unfold unshare
    by_cases hq : q = p
    · subst hq
      simp [hk]
    · simp [Function.update_of_ne hq]
  · cases hns rfl
  · exact absurd rfl hc
  · exact ⟨rfl, rfl⟩
  · exact ⟨rfl, rfl⟩
  · exact ⟨rfl, rfl⟩

/-- A call that the two processes make after the fork shows nothing new. -/
theorem Rested.next (hs : Rested s t) (hc : c.kind ∉ [.uts, .fork])
    (hns : c.kind = .ns → c = .unshare (Namespace.cloneFlags [.user]))
    (hsp : Shown.Spares written c) (hin : s.2.entered (s.1.ns.forChildren p .time) = true)
    (ha : (showing written).allows t p h c a) :
    Rested s ((showing written).next t p c a) ∧ ¬ SetsOffset ⟨c, a⟩ := by
  have hset : ¬ SetsOffset ⟨c, a⟩ := Shown.not_setsOffset ha.2 (by
    rw [hs.shown, hs.forChildren p .time (by decide), hin])
  have hfork : c.kind ≠ .fork := fun heq => hc (by simp [heq])
  -- What is shown changes only with names, namespaces and forks
  have hshown : t.2.next written t.1 p c a = t.2 := by
    by_cases hk : c.kind = .ns
    · obtain rfl := hns hk
      cases a with
      | ok u => simp [Shown.next]
      | error e => rfl
    · -- Of these the call is none
      refine Shown.next_of_kind (fun hin => ?_) hset hsp
      simp only [Shown.kinds, List.mem_cons, List.not_mem_nil, or_false] at hin
      rcases hin with heq | heq | heq
      · exact hc (by simp [heq])
      · exact hk heq
      · exact hfork heq
  exact ⟨⟨hshown.trans hs.shown,
    fun q k hk => (NsState.next_rested _ p a hfork hns hk q).1.trans (hs.ns q k hk),
    fun q k hk => (NsState.next_rested _ p a hfork hns hk q).2.trans (hs.forChildren q k hk)⟩, hset⟩

namespace CreateRequest

variable {req : CreateRequest} {cfg : Config calls Int (World × Shown) Err Unit}

/-- The child makes no namespace but that of the two-stage mode. -/
theorem childMain_at_ns (hat : req.childMain.At h c) (hc : c.kind = .ns) :
    c = .unshare (Namespace.cloneFlags [.user]) := by
  have hk : c.kind ∈ [.ns] := by simp [hc]
  -- The calls on namespaces in the child's own order
  rcases at_bind.1 hat with hat₁ | ⟨⟨⟩, _, h₁, -, hat₁, -⟩
  · obtain ⟨⟨⟩, _, h₂, -, hat₂, -⟩ :=
      (orExit_uses resetChildSignalHandlers_uses).at_past (by decide) hk hat₁
    rcases at_bind.1 hat₂ with hat₃ | ⟨⟨⟩, _, h₃, -, hat₃, -⟩
    · obtain ⟨⟨⟩, _, h₄, -, hat₄, -⟩ :=
        req.pivotIfMount_uses.at_past (by decide) hk (at_when.1 hat₃).2
      rcases at_sys_bind.1 (at_when.1 hat₄).2 with ⟨-, rfl⟩ | ⟨_, _, -, hat₅⟩
      · rfl
      · exact absurd hat₅ not_at_check
    · simp only [at_sys_bind, at_check_bind, at_pure, and_false, exists_false, or_false] at hat₃
      rw [hat₃.2] at hc
      cases hc
  · rcases at_sys_bind.1 hat₁ with ⟨-, rfl⟩ | ⟨a, h₂, -, hat₂⟩
    · cases hc
    · rcases at_bind.1 hat₂ with hat₃ | ⟨_, _, h₃, -, hat₃, -⟩
      · exact absurd hat₃ not_at_check
      · exact absurd hat₃ (req.childRest_uses.not_at (by decide) hk)

/-- What is shown to a process after the history `h` is so after more calls that set no name. -/
theorem NameShown.append {old name : String} (hshown : req.NameShown old h name) {h' : List Event}
    (hno : ∀ e ∈ h', e.call.kind ≠ .uts) : req.NameShown old (h ++ h') name := by
  rcases hshown with ⟨n, hpid, hset, heq⟩ | ⟨hnone, heq⟩
  · exact .inl ⟨n, List.mem_append_left _ hpid, List.mem_append_left _ hset, heq⟩
  · refine .inr ⟨fun name' hm => ?_, heq⟩
    rcases List.mem_append.1 hm with hm | hm
    · exact hnone name' hm
    · exact hno _ hm rfl

/-- The clock is shown as before if the calls that follow set no offset. -/
theorem ClockShown.append {old offset : Int} (hshown : req.ClockShown old h offset)
    {h' : List Event} (hno : ∀ e ∈ h', ¬ SetsOffset e) : req.ClockShown old (h ++ h') offset := by
  rcases hshown with ⟨htime, ⟨e, he, hset⟩, r, hclock, heq⟩ | ⟨hnone, heq⟩
  · exact .inl ⟨htime, ⟨e, List.mem_append_left _ he, hset⟩, r, List.mem_append_left _ hclock, heq⟩
  · refine .inr ⟨fun e he => ?_, heq⟩
    rcases List.mem_append.1 he with he | he
    · exact hnone e he
    · exact hno e he

/-! ## The files of the control groups -/

/-- A file that `prepare_cgroup` may write: in the base or in the directory of the workload, under
    the name of a file that a control group is run by, or of a limit. -/
def CgroupFile (req : CreateRequest) (path : String) : Prop :=
  ∃ dir name, path = pathPush dir name ∧
    (dir = req.cgroupBase ∨ ∃ pid : Nat, dir = req.cgroupDir (req.workload pid)) ∧
    (name = "cgroup.procs" ∨ name = "cgroup.subtree_control" ∨
      ∃ limits value, req.limits = some limits ∧ (name, value) ∈ limits.entries)

/-- If the call writes a file by its path, `prepare_cgroup` has chosen it. -/
def WritesCgroup (req : CreateRequest) (c : Call) : Prop :=
  ∀ path text, c = .fsWrite path text → req.CgroupFile path

/-- What is not about files writes none. -/
theorem writesCgroup_of_within {α : Type} {p : Sys α} {ks : List Call.Kind}
    (hp : p.Uses (Call.within ks)) (hks : .file ∉ ks) : p.Uses req.WritesCgroup := by
  refine hp.mono fun c hc path text heq => ?_
  subst heq
  exact absurd hc hks

/-- To open a control group is to ask whether it is there. -/
theorem openRoot_writesCgroup (root : String) : (CGroup.openRoot root).Uses req.WritesCgroup :=
  .bind (.check _ _) fun _ => .bind (Uses.sys (I := calls) fun _ _ heq => by cases heq) fun _ =>
    .bind (.check _ _) fun _ => .pure _

/-- A value is written to the one file. -/
theorem setChildValue_writesCgroup {g : CGroup} {name : String} (value : String)
    (hfile : req.CgroupFile (pathPush g.root name)) :
    (g.setChildValue name value).Uses req.WritesCgroup :=
  .bind (Uses.sys (I := calls) fun _ _ heq => by cases heq; exact hfile) fun _ => .check _ _

/-- The base is opened first, and what is written after that is in it or in the child. -/
theorem prepareCgroup_writesCgroup : req.prepareCgroup.Uses req.WritesCgroup := by
  have hopen : ∀ {root h g}, (CGroup.openRoot root).Runs h (.ok g) → g = ⟨root⟩ :=
    fun hr => (CGroup.openRoot_runs.1 hr).1
  unfold prepareCgroup
  refine .when fun _ => .bind (Uses.sys (I := calls) fun _ _ heq => by cases heq) fun pid =>
    .bind_runs (openRoot_writesCgroup _) fun h cgroot hroot => ?_
  obtain rfl := hopen hroot
  -- With limits, or without
  split
  · next limits hl =>
    refine .bind ?_ fun _ => .bind_runs ?_ fun h₁ wid hwid => .bind_runs ?_ fun h₂ g hchild =>
      .bind (.forM fun entry hentry => .when fun _ => .bind (.attempt ?_) fun _ => .pure _)
        fun _ => ?_
    · exact .bind (Uses.sys (I := calls) fun _ _ heq => by cases heq) fun _ => .when fun _ =>
        .bind (.attempt (setChildValue_writesCgroup _
          ⟨_, _, rfl, .inl rfl, .inr (.inl rfl)⟩)) fun _ => .pure _
    · exact .bind (Uses.sys (I := calls) fun _ _ heq => by cases heq) fun _ => .pure _
    · exact .bind (Uses.sys (I := calls) fun _ _ heq => by cases heq) fun _ =>
        .bind (.check _ _) fun _ => openRoot_writesCgroup _
    all_goals
      -- The child that is opened is the directory of the workload
      obtain ⟨n, -, rfl⟩ := identity_runs hwid
      obtain ⟨rfl, -⟩ := createChild_runs hchild
    · exact setChildValue_writesCgroup _
        ⟨_, _, rfl, .inr ⟨n, rfl⟩, .inr (.inr ⟨limits, entry.2, hl, hentry⟩)⟩
    · exact setChildValue_writesCgroup _ ⟨_, _, rfl, .inr ⟨n, rfl⟩, .inl rfl⟩
  · exact setChildValue_writesCgroup _ ⟨_, _, rfl, .inl rfl, .inl rfl⟩

/-- The boot time is written to a file of the process's own. -/
theorem updateBoottime_writesCgroup : updateBoottime.Uses req.WritesCgroup := by
  unfold updateBoottime getBoottime
  refine .bind (.bind (Uses.sys (I := calls) fun _ _ heq => by cases heq) fun r => ?_) fun _ =>
    .bind (Uses.sys (I := calls) fun _ _ heq => by cases heq) fun _ => .check _ _
  split <;> exact .pure _

/-- What comes before the fork writes no other file. -/
theorem prologue_writesCgroup : req.prologue.Uses req.WritesCgroup :=
  .bind (.attempt req.prepareCgroup_writesCgroup) fun _ =>
    .bind (writesCgroup_of_within (unshare_uses _) (by decide)) fun _ =>
    .bind (.attempt updateBoottime_writesCgroup) fun _ =>
    .bind (.attempt (writesCgroup_of_within req.updateHostname_uses (by decide))) fun _ =>
    writesCgroup_of_within req.setupTail_uses (by decide)

/-- After the fork the supervisor writes no file, and the child none by its path. -/
theorem afterFork_writesCgroup (a : Except Errno ForkResult) :
    (req.afterFork a).Uses req.WritesCgroup := by
  refine .bind (.check _ _) fun x => ?_
  cases x with
  | parent child => exact writesCgroup_of_within (req.supervise_uses child) (by decide)
  | child => exact req.childMain_modest.mono fun _ hc path text heq => absurd heq (hc.2 path text)

/-- In all of `wrap`, no other file is written by its path. -/
theorem wrap_writesCgroup : req.wrap.Uses req.WritesCgroup := by
  rw [wrap_eq]
  exact .bind prologue_writesCgroup fun _ =>
    .bind (Uses.sys (I := calls) fun _ _ heq => by cases heq) afterFork_writesCgroup

/-- If no file of the control groups is a setting of the kernel, none is written. -/
theorem spares_of_writesCgroup (hplain : ∀ path, req.CgroupFile path → Shown.Plain written path)
    (hc : req.WritesCgroup c) : Shown.Spares written c :=
  fun path text heq => hplain path (hc path text heq)

/-- The invariant of the pair: since the fork nothing that is shown has changed. -/
private def SameShown (written : World → Shown → Int → String → String → Shown) (root : Int)
    (s₀ : World × Shown) (f : ForkPoint calls Int Unit .fork) (s : World × Shown)
    (_ h₂ : List Event) : Prop :=
  Rested (f.state (showing written) root s₀) s ∧ ∀ e ∈ h₂, e.call.kind ≠ .uts ∧ ¬ SetsOffset e

/-- Right after the fork there is a process in the time namespace of either. -/
private theorem entered_of_fork {f : ForkPoint calls Int Unit .fork}
    (hf : f.Valid (showing written) root s₀ req.prologue) {pid : Int}
    (hpid : pid = root ∨ pid = f.child) :
    (f.state (showing written) root s₀).2.entered
      ((f.state (showing written) root s₀).1.ns.forChildren pid .time) = true := by
  obtain ⟨ha, -⟩ := spawn_some hf.spawn
  unfold ForkPoint.state
  rw [ha]
  show (Function.update _ _ _ : Nat → Bool)
    ((NsState.fork _ root f.child).forChildren pid .time) = true
  -- Either process has the namespace in which the supervisor makes its children
  have htime :
      (((showing written).after s₀ root f.hist).1.ns.fork root f.child).forChildren pid .time =
        ((showing written).after s₀ root f.hist).1.ns.forChildren root .time := by
    rcases hpid with rfl | rfl
    · simp [NsState.fork, Function.update_of_ne hf.ne.symm]
    · simp [NsState.fork]
  rw [htime, Function.update_self]

/-- The state in which the two processes start. -/
private theorem state_of_fork {f : ForkPoint calls Int Unit .fork}
    (hf : f.Valid (showing written) root s₀ req.prologue) :
    (f.state (showing written) root s₀).2.hostname =
        ((showing written).after s₀ root f.hist).2.hostname ∧
      (f.state (showing written) root s₀).2.offset =
        ((showing written).after s₀ root f.hist).2.offset ∧
      (f.state (showing written) root s₀).1.ns =
        ((showing written).after s₀ root f.hist).1.ns.fork root f.child := by
  obtain ⟨ha, -⟩ := spawn_some hf.spawn
  unfold ForkPoint.state
  rw [ha]
  exact ⟨rfl, rfl, rfl⟩

/-- The supervisor shows nothing new. -/
private theorem sameShown_root {f : ForkPoint calls Int Unit .fork}
    (hf : f.Valid (showing written) root s₀ req.prologue) (hJ : SameShown written root s₀ f s h₁ h₂)
    (hplain : ∀ path, req.CgroupFile path → Shown.Plain written path)
    (hat : (req.afterFork f.answer).At h₁ c) (hallows : (showing written).allows s root h c a) :
    SameShown written root s₀ f ((showing written).next s root c a) (h₁ ++ [⟨c, a⟩]) h₂ := by
  obtain ⟨ha, -⟩ := spawn_some hf.spawn
  have hsp := spares_of_writesCgroup hplain (req.afterFork_writesCgroup _ _ _ hat)
  rw [ha] at hat
  have hk : c.kind ∉ [.uts, .fork] := fun hin =>
    (req.supervise_uses f.child).not_at (by decide) hin hat
  have hno : c.kind ∉ [.ns] := fun hin => (req.supervise_uses f.child).not_at (by decide) hin hat
  exact ⟨(hJ.1.next hk (fun hns => absurd (List.mem_singleton.2 hns) hno) hsp
    (entered_of_fork hf (.inl rfl)) hallows).1, hJ.2⟩

/-- The child shows nothing new. -/
private theorem sameShown_child {f : ForkPoint calls Int Unit .fork}
    (hf : f.Valid (showing written) root s₀ req.prologue) (hJ : SameShown written root s₀ f s h₁ h₂)
    (hplain : ∀ path, req.CgroupFile path → Shown.Plain written path)
    (hat : (req.afterFork f.childAnswer).At h₂ c)
    (hallows : (showing written).allows s f.child h c a) :
    SameShown written root s₀ f ((showing written).next s f.child c a) h₁ (h₂ ++ [⟨c, a⟩]) := by
  obtain ⟨-, hb⟩ := spawn_some hf.spawn
  have hsp := spares_of_writesCgroup hplain (req.afterFork_writesCgroup _ _ _ hat)
  rw [hb] at hat
  have hk : c.kind ∉ [.uts, .fork] := fun hin => req.childMain_uses.not_at (by decide) hin hat
  -- The child makes its user namespace at most, and sets no name
  obtain ⟨hrest, hset⟩ :=
    hJ.1.next hk (childMain_at_ns hat) hsp (entered_of_fork hf (.inr rfl)) hallows
  refine ⟨hrest, fun e he => ?_⟩
  rcases List.mem_append.1 he with he | he
  · -- So its step is as quiet as those before it
    exact hJ.2 e he
  · rw [List.mem_singleton.1 he]
    exact ⟨fun heq => hk (by simp [heq]), hset⟩

/-- Where the files of the control groups are no settings of the kernel, the workload sees the name
    and the boot time that its request asks for, where they have not been refused, and all others go
    on to see what they saw: with a UTS namespace of its own no hostname of before is changed, and
    an offset of before never is. -/
theorem wrap_shows (hplain : ∀ path, req.CgroupFile path → Shown.Plain written path)
    (hs₀ : s₀.1.Initial root)
    (hin : s₀.2.entered (s₀.1.ns.ns root .time) = true)
    (hr : (showing written).Reachable root req.wrap s₀ cfg) :
    req.OthersShown root s₀ cfg.state ∧
    ∀ pid P, cfg.procs pid = some P → pid ≠ root →
      req.NameShown (s₀.2.hostname (s₀.1.ns.ns root .uts)) P.hist
        (cfg.state.2.hostname (cfg.state.1.ns.ns pid .uts)) ∧
      req.ClockShown (s₀.2.offset (s₀.1.ns.ns root .time)) P.hist
        (cfg.state.2.offset (cfg.state.1.ns.ns pid .time)) := by
  have hspares : ∀ c, req.WritesCgroup c → Shown.Spares written c :=
    fun _ => spares_of_writesCgroup hplain
  rw [wrap_eq] at hr
  have hcases := reachable_cases (SameShown written root s₀)
    (req.prologue_uses.mono fun _ hc a => spawn_none a fun heq => by
      subst heq
      exact absurd hc (by decide))
    (fun _ a => (req.afterFork_uses a).mono fun _ hc b => spawn_none b fun heq => by
      subst heq
      exact absurd hc (by decide))
    (fun f _ => ⟨⟨rfl, fun _ _ _ => rfl, fun _ _ _ => rfl⟩, List.forall_mem_nil _⟩)
    (fun f s h₁ h₂ c a hf hJ hat hallows => sameShown_root hf hJ hplain hat hallows)
    (fun f s h₁ h₂ c a hf hJ hat hallows => sameShown_child hf hJ hplain hat hallows) hr
  rcases hcases with ⟨h, q, hsolo⟩ | ⟨f, h₁, h₂, p₁, p₂, hf, hduo, hrest, hquiet⟩
  · -- There is no child yet
    rw [hsolo.state]
    refine ⟨others_after hs₀ hin hsolo.reaches (fun a ha => ?_)
        (fun e he => hspares _ (req.wrap_writesCgroup.mem hsolo.reaches he)) hsolo.lawful,
      fun pid P hP hne => absurd (hsolo.proc_eq hP).1 hne⟩
    -- No fork of its has succeeded
    rcases a with e | child | _
    · exact ⟨e, rfl⟩
    · cases hsolo.noSpawn _ ha
    · obtain ⟨l₁, l₂, rfl⟩ := List.append_of_mem ha
      exact (hsolo.lawful l₁ _ l₂ rfl).1.elim
  · have hreach : req.wrap.Reaches f.hist (.call (I := calls) .fork req.afterFork) := by
      rw [wrap_eq]
      exact reaches_bind.2 (.inr ⟨(), f.hist, [], hf.runs, .refl _, by simp⟩)
    have hpro : ∀ e ∈ f.hist, Shown.Spares written e.call := fun e he =>
      hspares _ (req.prologue_writesCgroup.mem hf.runs he)
    have hothers := others_after hs₀ hin hreach (fun a ha =>
      absurd (req.prologue_uses.mem (e := ⟨.fork, a⟩) hf.runs ha)
        (by simp [Call.within, Call.kind])) hpro hf.lawful
    -- the fork itself
    obtain ⟨hname, hoffset, hns⟩ := state_of_fork hf
    refine ⟨fun id hid => ?_, fun pid P hP hne => ?_⟩
    · rw [hrest.shown, hname, hoffset]
      exact hothers id hid
    · obtain ⟨-, rfl, rfl⟩ := (Config.proc_cases hduo.rootProc hduo.childProc hduo.others
        hP).resolve_left fun hroot => hne hroot.1
      obtain ⟨l₁, l₂, l₃, r, b, n, hp⟩ := prologue_of_runs hf.runs
      obtain ⟨hshows, hclock⟩ := hp.shows hs₀ hin hpro hf.lawful
      have hprologue : ((showing written).after s₀ root f.hist).1.ns =
          s₀.1.ns.unshare root (Namespace.cloneFlags req.firstLevelNs) := by
        rw [showing_after_ns, prologue_ns _ _ hf.runs]
      -- The child has been forked into the namespaces that were made for it
      have huts : cfg.state.1.ns.ns f.child .uts =
          ((showing written).after s₀ root f.hist).1.ns.ns root .uts := by
        rw [hrest.ns _ _ (by decide), hns, hprologue, NsState.unshare_ns_uts]
        simp [NsState.fork, NsState.unshare, hs₀.forChildren]
      have htime : cfg.state.1.ns.ns f.child .time =
          ((showing written).after s₀ root f.hist).1.ns.forChildren root .time := by
        rw [hrest.ns _ .time (by decide), hns]
        simp [NsState.fork]
      rw [huts, htime, hrest.shown, hname, hoffset]
      -- What has been set since is set by neither process
      refine ⟨hshows.append fun e he => ?_, hclock.append fun e he => ?_⟩
      · rcases List.mem_cons.1 he with rfl | he
        · exact fun hk => by cases hk
        · exact (hquiet e he).1
      · rcases List.mem_cons.1 he with rfl | he
        · exact not_setsOffset_of_kind (by simp [Call.kind])
        · exact (hquiet e he).2

/-- The kernel allows the answer, whatever the history, if it is asked for no eventfd, no child and
    no score. -/
private theorem allows_of_takes {e : Event} (hfree : e.call.free = true)
    (ht : s.2.takes s.1 p e = true) : (showing written).allows s p [] e.call e.answer := by
  refine ⟨s.1.allows_of_free p e.answer hfree, ?_⟩
  obtain ⟨c, a⟩ := e
  show s.2.allows s.1 p c a
  unfold Shown.allows
  split
  · simpa [Shown.takes] using ht
  · trivial

/-- Each event of the history is one that `allows_of_takes` is about. -/
def takesAll (written : World → Shown → Int → String → String → Shown) (p : Int) :
    World × Shown → List Event → Bool
  | _, [] => true
  | s, e :: h => e.call.free && s.2.takes s.1 p e &&
      takesAll written p ((showing written).next s p e.call e.answer) h

/-- The evaluated check says that every call is allowed. -/
private theorem lawful_of_takesAll (ht : takesAll written p s h = true) :
    (showing written).Lawful s p h := by
  induction h generalizing s with
  | nil => exact fun h₁ e h₂ heq => by simp at heq
  | cons e h ih =>
    rw [takesAll, Bool.and_eq_true, Bool.and_eq_true] at ht
    exact .cons (fun ha => ha) (allows_of_takes ht.1.1 ht.1.2) (ih ht.2)

/-- Of the kernel's settings, what is written to the file of the hostname becomes the name. -/
def settings (w : World) (s : Shown) (p : Int) (path text : String) : Shown :=
  if path = "/proc/sys/kernel/hostname" then
    { s with hostname := Function.update s.hostname (w.ns.ns p .uts) text }
  else s

/-- A program in a container of the given name, with a clock of its own. -/
def guest (name : String) : CreateRequest :=
  { simple [.uts, .time] with hostname := some name }

/-- The host was started ten seconds ago. -/
def tenSeconds : calls.Answers := answering .clockGettimeBoottime (.ok (10 : Int))

/-- What is pushed to a path and is not empty ends the path. -/
theorem getLast?_pathPush (dir : String) {name : String} (hne : name.toList ≠ []) :
    (pathPush dir name).toList.getLast? = name.toList.getLast? := by
  unfold pathPush
  split
  · rfl
  · split <;> simp [List.getLast?_append, List.getLast?_eq_some_getLast hne, List.getLast?_cons]

/-- Without limits no file of the control groups is that of the hostname. -/
private theorem guest_plain (name path : String) (hp : (guest name).CgroupFile path) :
    Shown.Plain settings path := by
  obtain ⟨dir, file, rfl, -, hfile⟩ := hp
  have hlast : (pathPush dir file).toList.getLast? ≠ some 'e' := by
    rcases hfile with rfl | rfl | ⟨limits, _, hl, -⟩
    · rw [getLast?_pathPush _ (by decide)]
      decide
    · rw [getLast?_pathPush _ (by decide)]
      decide
    · cases hl
  intro w s p text
  refine if_neg fun heq => hlast ?_
  rw [heq]
  decide

/-- A guest sees its own name and a boot time of one second, and the host still has its name. -/
theorem wrap_shows_guest : ∃ cfg P,
    (showing settings).Reachable 1 (guest "guest").wrap (.fresh, .host) cfg ∧
    cfg.procs 2 = some P ∧ cfg.state.2.hostname (cfg.state.1.ns.ns 2 .uts) = "guest" ∧
    cfg.state.2.offset (cfg.state.1.ns.ns 2 .time) = -9 ∧ cfg.state.2.hostname 0 = "host" := by
  generalize hh : ((guest "guest").prologue.eval tenSeconds []).1 = h
  have hrun : (guest "guest").prologue.Runs h (.ok ()) := by
    have hsucceeds : (guest "guest").prologue.Succeeds tenSeconds [] := ⟨(), by decide⟩
    obtain ⟨⟨⟩, hrun⟩ := hsucceeds.runs
    exact hh ▸ hrun
  -- The run is that of the answers, which the kernel could give
  have hfollows : Follows tenSeconds [] h := hh ▸ eval_follows _ _ _
  have htakes : takesAll settings 1 (.fresh, .host) h = true := by
    rw [← hh]
    decide +kernel
  have hset : (⟨.sethostname "guest", .ok ()⟩ : Event) ∈ h := by
    rw [← hh]
    exact List.mem_of_getElem? (i := 4) rfl
  have hwrite : (⟨.procWrite .timensOffsets (bootText 10), .ok ()⟩ : Event) ∈ h := by
    rw [← hh]
    exact List.mem_of_getElem? (i := 2) rfl
  have hfree := Call.free_of_uses (guest "guest").prologue_uses (by decide) hrun
  obtain ⟨cfg, hr, -, hchild⟩ := exists_forked (fun _ _ => rfl) hrun (lawful_of_takesAll htakes)
    ⟨trivial, trivial⟩ (fun e he => Call.ne_fork_of_free (hfree e he)) (by decide : (2 : Int) ≠ 1)
    (guest "guest").afterFork
  obtain ⟨hothers, hshows⟩ := wrap_shows (guest_plain _) (World.fresh_initial 1) rfl hr
  obtain ⟨hname, hclock⟩ := hshows 2 _ hchild (by decide)
  -- The hostname is set by an event of the run, and so is the offset
  refine ⟨cfg, _, hr, hchild, ?_, ?_, (hothers 0 (Nat.le_refl 0)).1 (.inl (by decide))⟩
  · -- The name is the one that was set, since one was set
    rcases hname with ⟨n, -, -, heq⟩ | ⟨hnone, -⟩
    · exact heq
    · exact absurd (List.mem_append_left _ hset) (hnone _)
  · -- And so is the offset, for the clock read 10
    rcases hclock with ⟨-, -, r, hread, heq⟩ | ⟨hnone, -⟩
    · rcases List.mem_append.1 hread with hread | hread
      · obtain ⟨h₁, h₂, hsplit⟩ := List.append_of_mem hread
        obtain rfl : r = .ok 10 := hfollows h₁ ⟨.clockGettimeBoottime, r⟩ h₂ hsplit
        exact heq
      · have hkind := congrArg (fun e : Event => e.call.kind) (List.mem_singleton.1 hread)
        exact absurd hkind (by simp [Call.kind])
    · exact absurd ⟨_, rfl⟩ (hnone _ (List.mem_append_left _ hwrite))

end CreateRequest

end Styrolite
