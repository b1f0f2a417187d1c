import Styrolite.ForStd.Triples
import Styrolite.Spec.Request

/-!
# The seccomp filter

`SeccompFilter::install` passes the length of the filter in 16 bits, and the
kernel installs as many instructions as that length says. So the program that
is installed is the first `length % 65536` instructions of the list
(`Request.wrap_filters`), which is the filter that was asked for or nothing
unless the list is longer than a program can be and what is left of it is a
program again (`SeccompFilter.install_whole_iff`).

What the kernel finds invalid is a parameter.

## Key results

- `SeccompFilter.install_whole_iff`: when no part of a filter is installed
- `Request.wrap_filters`: the program a workload starts with
-/

namespace Styrolite

open Prog LocalRules

/-- The most instructions a BPF program may have. -/
def BPF_MAXINSNS : Nat := 4096

/-- Whether the kernel takes the program, where `valid` is its check of the instructions. -/
def bpfAccepts (valid : List BpfInstruction → Bool) (program : List BpfInstruction) : Bool :=
  decide (0 < program.length ∧ program.length ≤ BPF_MAXINSNS) && valid program

/-- The rules of `seccomp(2)`: the state is the programs installed, the oldest first. -/
def filterRules (valid : List BpfInstruction → Bool) :
    LocalRules calls (List (List BpfInstruction)) where
  allows _ c a :=
    match c, a with
    | .seccomp filter len, .ok _ => bpfAccepts valid (filter.take len.toNat) = true
    | .seccomp filter len, .error _ => bpfAccepts valid (filter.take len.toNat) ≠ true
    | _, _ => True
  next installed c a :=
    match c, a with
    | .seccomp filter len, .ok _ => installed ++ [filter.take len.toNat]
    | _, _ => installed

/-- The call installs no filter. -/
def Call.notSeccomp : Call → Prop
  | .seccomp _ _ => False
  | _ => True

theorem Call.notSeccomp_of_kind {c : Call} (hc : c.kind ≠ .confine) : c.notSeccomp := by
  cases c with
  | seccomp filter len => exact absurd rfl hc
  | _ => exact trivial

theorem filterRules_next {valid : List BpfInstruction → Bool} {c : Call} (hc : c.notSeccomp)
    (a : c.Answer) (installed : List (List BpfInstruction)) :
    (filterRules valid).next installed c a = installed := by
  cases c with
  | seccomp filter len => exact hc.elim
  | _ => rfl

section

variable {valid : List BpfInstruction → Bool} {installed : List (List BpfInstruction)}
  {h : List Event}

namespace SeccompFilter

/-- The program that the kernel is given: the length is cut to 16 bits. -/
def program (filter : SeccompFilter) : List BpfInstruction :=
  filter.instructions.take (filter.instructions.length % 65536)

theorem length_program (filter : SeccompFilter) :
    filter.program.length = filter.instructions.length % 65536 := by
  rw [program, List.length_take]
  exact Nat.min_eq_left (Nat.mod_le _ _)

/-- Nothing is cut off a list whose length fits in 16 bits. -/
theorem program_eq_iff {filter : SeccompFilter} :
    filter.program = filter.instructions ↔ filter.instructions.length < 65536 := by
  constructor
  · intro heq
    have hlength := filter.length_program
    rw [heq] at hlength
    omega
  · intro hlt
    rw [program, Nat.mod_eq_of_lt hlt, List.take_length]

theorem install_ends (filter : SeccompFilter) :
    (filterRules valid).Ends installed filter.install
      (fun _ s => bpfAccepts valid filter.program = true ∧ s = installed ++ [filter.program])
      fun s => bpfAccepts valid filter.program ≠ true ∧ s = installed := by
  -- The length is handed over in 16 bits
  have htake : filter.instructions.take (UInt16.ofNat filter.instructions.length).toNat =
      filter.program := by
    rw [program, UInt16.toNat_ofNat']
  refine .bind (.sys (I := calls) fun a ha => ?_)
  cases a with
  | ok u =>
    refine .pure ?_
    rw [← htake]
    exact ⟨ha, rfl⟩
  | error e =>
    refine .fail ?_
    rw [← htake]
    exact ⟨ha, rfl⟩

theorem install_returns (filter : SeccompFilter) : filter.install.Returns :=
  .bind (.sys (I := calls) _) fun _ => .check _ _

/-- The call has failed and installed nothing, or has installed the list it was asked to. -/
def WholeOrRefused (filter : SeccompFilter) (installed installed' : List (List BpfInstruction))
    (r : Outcome Err Unit) : Prop :=
  (∃ e, r = .err e) ∧ installed' = installed ∨
    r = .ok () ∧ installed' = installed ++ [filter.instructions]

/-- The filter is installed as a whole or refused, unless its length does not fit in 16 bits and
    the kernel takes the beginning that the remaining length says. -/
theorem install_whole_iff {filter : SeccompFilter} {r : Outcome Err Unit}
    (hl : (filterRules valid).Lawful installed h) (hr : filter.install.Runs h r) :
    filter.WholeOrRefused installed ((filterRules valid).after installed h) r ↔
      filter.instructions.length < 65536 ∨ filter.instructions.length % 65536 = 0 ∨
        4096 < filter.instructions.length % 65536 ∨
        valid (filter.instructions.take (filter.instructions.length % 65536)) = false := by
  -- The kernel refuses a program that is empty, too long or not valid
  have hrefused : bpfAccepts valid filter.program ≠ true ↔
      filter.instructions.length % 65536 = 0 ∨ 4096 < filter.instructions.length % 65536 ∨
        valid (filter.instructions.take (filter.instructions.length % 65536)) = false := by
    rw [Ne, bpfAccepts, Bool.and_eq_true, decide_eq_true_eq, length_program, BPF_MAXINSNS,
      not_and_or, not_and_or, Nat.not_lt, Nat.not_le, Nat.le_zero, Bool.not_eq_true, or_assoc]
    rfl
  rw [← hrefused, ← program_eq_iff]
  have hpost := filter.install_ends h r hl hr
  cases r with
  | ok u =>
    -- It was installed, so it was not refused
    obtain ⟨ha, hafter⟩ := hpost
    rw [WholeOrRefused, hafter]
    simp [ha]
  | err e =>
    obtain ⟨hno, hafter⟩ := hpost
    exact iff_of_true (.inl ⟨⟨e, rfl⟩, hafter⟩) (.inr hno)
  | halt n =>
    -- The installation does not halt
    exact absurd hr (filter.install_returns h n)

end SeccompFilter

/-! ## The workload -/

theorem ends_notSeccomp {α : Type} {p : Sys α} (hp : p.Uses Call.notSeccomp) :
    (filterRules valid).Ends installed p (fun _ s => s = installed) fun s => s = installed :=
  .of_uses hp fun _ hc a s => filterRules_next hc a s

theorem notSeccomp_of_uses {α : Type} {p : Sys α} {ks : List Call.Kind}
    (hp : p.Uses (Call.within ks)) (hks : Call.Kind.confine ∉ ks) : p.Uses Call.notSeccomp :=
  hp.mono fun _ hc => Call.notSeccomp_of_kind fun heq => hks (heq ▸ hc)

variable {program : String} {args env : List String}

/-- What follows a part of the program that installs no filter and does not come to the workload. -/
theorem before_past {α β : Type} {p : Sys α} {f : α → Sys β} (ks : List Call.Kind)
    {A : List (List BpfInstruction) → Prop} (hp : p.Uses (Call.within ks))
    (hks : Call.Kind.confine ∉ ks ∧ Call.Kind.exec ∉ ks)
    (hf : ∀ a, (filterRules valid).Before installed (f a) (.execvpe program args env) A) :
    (filterRules valid).Before installed (p >>= f) (.execvpe program args env) A :=
  .past hp hks.2 ((ends_notSeccomp (notSeccomp_of_uses hp hks.1)).mono
    (fun a _ heq => heq ▸ hf a) fun _ hB => hB)

/-- The programs of the filters that the executable asks for. -/
def ExecutableSpec.filters (exec : ExecutableSpec) : List (List BpfInstruction) :=
  (exec.seccomp.map SeccompFilter.program).toList

theorem ExecutableSpec.installSeccomp_ends (exec : ExecutableSpec) :
    (filterRules valid).Ends installed exec.installSeccomp
      (fun _ s => s = installed ++ exec.filters) fun _ => True := by
  unfold filters
  refine .whenSome (fun filter hf => ?_) fun hnone => ?_
  · rw [hf]
    split
    · exact .fail trivial
    · exact filter.install_ends.mono (fun _ _ hok => hok.2) fun _ _ => trivial
  · rw [hnone]
    exact (List.append_nil installed).symm

theorem ExecutableSpec.execute_filters (exec : ExecutableSpec) :
    (filterRules valid).Before installed exec.execute (.execvpe program args env)
      fun s => s = installed ++ exec.filters := by
  unfold ExecutableSpec.execute
  refine before_past [.enterLate] (uses_sys _ rfl) (by decide) fun _ =>
    before_past [] (uses_orFail _) (by decide) fun _ =>
    before_past [] (uses_orFail _) (by decide) fun _ =>
    before_past [] (uses_orFail _) (by decide) fun _ =>
    before_past [] (uses_orFail _) (by decide) fun _ =>
    before_past [.file] (.whenSome fun _ _ => uses_checked _ rfl) (by decide) fun _ => ?_
  -- `no_new_privs` installs nothing, and then comes the one filter
  have hnnp : setNoNewPrivs.Uses Call.notSeccomp :=
    .mapErr (.bind (Uses.sys (I := calls) (c := .prSetNoNewPrivs) trivial) fun _ => .check _ _)
  refine .past (.when fun _ => setNoNewPrivs_uses) (by decide : ¬ Call.Kind.exec ∈ _)
    ((ends_notSeccomp (.when fun _ => hnnp)).mono (fun _ s hs => ?_) fun _ hB => hB)
  rw [hs]
  refine .past exec.installSeccomp_uses (by decide : ¬ Call.Kind.exec ∈ _)
    (exec.installSeccomp_ends.mono (fun _ s hs => ?_) fun _ hB => hB)
  refine before_past _ (.whenSome fun _ _ => .mapErr (changeOnexec_uses _)) (by decide) fun _ =>
    before_past _ resetSigpipe_uses (by decide) fun _ => .last hs fun a h => ?_
  cases a with
  | ok u => exact at_done
  | error e => exact at_done

/-- The filter that the workload starts with is what the kernel was given of the one asked for. -/
theorem Request.wrap_filters {r : Request} (hl : (filterRules valid).Lawful installed h)
    (hat : r.wrap.At h (.execvpe program args env)) :
    (filterRules valid).after installed h = installed ++ r.exec.filters := by
  obtain ⟨before, prep, after, hist, hbefore, hprep, hexec⟩ := Request.wrap_launch hat
  subst hist
  obtain ⟨hl₀, hl'⟩ := lawful_append.1 hl
  obtain ⟨hl₁, hl₂⟩ := lawful_append.1 hl'
  -- Before the workload's own steps no filter is installed
  have hquiet : ∀ s, (filterRules valid).after s before = s := fun s =>
    after_eq_of_forall fun e he s => filterRules_next
      (Call.notSeccomp_of_kind fun heq => absurd (heq ▸ hbefore e he) (by decide)) e.answer s
  have hprep' : (filterRules valid).after ((filterRules valid).after installed before) prep =
      (filterRules valid).after installed before :=
    ends_notSeccomp (notSeccomp_of_uses (preexecPrep_uses _ _) (by decide)) prep _ hl₁ hprep
  rw [hprep', hquiet] at hl₂
  rw [after_append, after_append, hprep', hquiet]
  exact r.exec.execute_filters after hl₂ hexec

end

/-! ## Two filters -/

/-- `BPF_RET | BPF_K` with `SECCOMP_RET_ALLOW`. -/
def retAllow : BpfInstruction := { code := 0x06, jt := 0, jf := 0, k := 0x7fff0000 }

/-- The part of the kernel's check that every filter meets at its end: a program ends with a
    return. -/
def endsInRet (program : List BpfInstruction) : Bool :=
  program.getLast?.any fun i => decide (i.code &&& 0x07 = 0x06)

/-- A filter of one instruction is installed. -/
theorem SeccompFilter.install_whole_allow : ∃ h,
    (SeccompFilter.install ⟨[retAllow]⟩).Runs h (.ok ()) ∧
      SeccompFilter.WholeOrRefused ⟨[retAllow]⟩ [] ((filterRules endsInRet).after [] h)
        (.ok ()) := by
  have hr : (SeccompFilter.install ⟨[retAllow]⟩).Runs [⟨.seccomp [retAllow] 1, .ok ()⟩] (.ok ()) :=
    .call (.refl _)
  have hl : (filterRules endsInRet).Lawful [] [⟨.seccomp [retAllow] 1, .ok ()⟩] :=
    lawful_cons.2 ⟨(by decide : bpfAccepts endsInRet [retAllow] = true), lawful_nil _ _⟩
  exact ⟨_, hr, (SeccompFilter.install_whole_iff hl hr).2 (.inl (by decide))⟩

/-- Of a filter of 65537 instructions only the first is installed, with success. -/
theorem SeccompFilter.install_not_whole : ∃ h,
    (filterRules endsInRet).Lawful [] h ∧
      (SeccompFilter.install ⟨List.replicate 65537 retAllow⟩).Runs h (.ok ()) ∧
      ¬ SeccompFilter.WholeOrRefused ⟨List.replicate 65537 retAllow⟩ []
        ((filterRules endsInRet).after [] h) (.ok ()) := by
  -- 65537 is 1 in 16 bits
  have hlen : UInt16.ofNat (List.replicate 65537 retAllow).length = 1 := by
    rw [List.length_replicate]
    rfl
  have htake : (List.replicate 65537 retAllow).take (1 : UInt16).toNat = [retAllow] := by
    rw [List.take_replicate]
    rfl
  have hr : (SeccompFilter.install ⟨List.replicate 65537 retAllow⟩).Runs
      [⟨.seccomp (List.replicate 65537 retAllow) 1, .ok ()⟩] (.ok ()) := by
    unfold install
    rw [hlen]
    exact .call (.refl _)
  refine ⟨_, lawful_cons.2 ⟨?_, lawful_nil _ _⟩, hr, fun hwhole => ?_⟩
  · show bpfAccepts endsInRet ((List.replicate 65537 retAllow).take (1 : UInt16).toNat) = true
    rw [htake]
    decide
  · -- The whole filter has more instructions than the one that was installed
    rcases hwhole with ⟨⟨e, he⟩, -⟩ | ⟨-, heq⟩
    · cases he
    · have hone : [(List.replicate 65537 retAllow).take (1 : UInt16).toNat] =
          [List.replicate 65537 retAllow] := heq
      rw [htake] at hone
      have hlength := congrArg List.length (List.cons.inj hone).1
      rw [List.length_replicate] at hlength
      exact absurd hlength (by decide)

end Styrolite
