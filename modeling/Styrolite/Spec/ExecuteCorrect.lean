import Mathlib.Data.List.TakeWhile
import Styrolite.Spec.Footprint
import Styrolite.Spec.MountsCorrect
import Styrolite.Spec.StyrojailCorrect

/-!
# The vectors of the workload

`execute` renders the arguments and the environment before it changes anything,
and refuses a string with a NUL byte. It does not refuse a key with a `=`, which
the workload reads as a part of the value. So what the workload is given is what
was configured unless a key has a `=` in it (`ExecutableSpec.execute_faithful_iff`).
-/

namespace Styrolite

open Prog

/-! ## What the workload reads -/

/-- The text at a pointer: up to the first NUL. -/
def readCStr (s : String) : String := String.ofList (s.toList.takeWhile (· ≠ Char.ofNat 0))

/-- An entry of the environment, cut at its first `=`. -/
def readEntry (s : String) : Option (String × String) :=
  (splitOnce '=' s.toList).map fun kv => (String.ofList kv.1, String.ofList kv.2)

/-- How an entry is rendered. -/
def renderEntry (kv : String × String) : String := kv.1 ++ "=" ++ kv.2

namespace ExecutableSpec

/-- The pairs of the environment. -/
def pairs (exec : ExecutableSpec) : List (String × String) :=
  (exec.environment.map BTreeMap.entries).getD []

/-- The workload reads the executable and the arguments, and the pairs of the environment. -/
def Delivered (exec : ExecutableSpec) (args env : List String) : Prop :=
  (∃ executable, exec.executable = some executable ∧
    args.map readCStr = executable :: exec.arguments.getD []) ∧
  (env.map fun e => readEntry (readCStr e)).Perm (exec.pairs.map some)

/-- Each string is read as what it was rendered from. -/
def Encodable (exec : ExecutableSpec) : Prop :=
  (∀ executable, exec.executable = some executable → readCStr executable = executable) ∧
  (∀ arg ∈ exec.arguments.getD [], readCStr arg = arg) ∧
  ∀ kv ∈ exec.pairs, readEntry (readCStr (renderEntry kv)) = some kv

/-- A call that changes the directory, `no_new_privs` or the seccomp state. -/
def Changes : Call → Prop
  | .setCurrentDir _ | .prSetNoNewPrivs | .seccomp _ _ => True
  | _ => False

/-- `execute` ends with an error, and has changed nothing. -/
def RefusedAtOnce (exec : ExecutableSpec) : Prop :=
  exec.execute.Uses (fun c => ¬ Changes c) ∧ ∀ h r, exec.execute.Runs h r → ∃ e, r = .err e

/-- What is configured is what the workload reads, or is refused at once. -/
structure Faithful (exec : ExecutableSpec) : Prop where
  delivered : ∀ h program args env, exec.execute.At h (.execvpe program args env) →
    exec.Delivered args env
  refused : ¬ exec.Encodable → exec.RefusedAtOnce

/-- A string that is passed on has a NUL byte. -/
def HasNulString (exec : ExecutableSpec) : Prop :=
  (∃ executable, exec.executable = some executable ∧ HasNul executable) ∨
    (∃ arg ∈ exec.arguments.getD [], HasNul arg) ∨
    ∃ kv ∈ exec.pairs, HasNul kv.1 ∨ HasNul kv.2

end ExecutableSpec

/-! ## Strings -/

/-- A NUL byte is a character of the string. -/
theorem hasNul_iff {s : String} : HasNul s ↔ Char.ofNat 0 ∈ s.toList := List.contains_iff_mem

/-- A C string is read back in full exactly if there is no NUL byte in it. -/
theorem readCStr_eq_self {s : String} : readCStr s = s ↔ ¬ HasNul s := by
  rw [readCStr, ← String.toList_inj, String.toList_ofList, List.takeWhile_eq_self_iff, hasNul_iff]
  constructor
  · intro hall hnul
    simpa using hall _ hnul
  · intro hnul c hc
    exact decide_eq_true fun heq => hnul (heq ▸ hc)

/-- An entry is read back up to its first `=`. -/
theorem readEntry_eq_some {s : String} {kv : String × String} :
    readEntry s = some kv ↔ '=' ∉ kv.1.toList ∧ s = renderEntry kv := by
  obtain ⟨k, v⟩ := kv
  constructor
  · -- What stands before the first `=` has none in it
    intro hread
    rw [readEntry, Option.map_eq_some_iff] at hread
    obtain ⟨⟨ks, vs⟩, hsplit, heq⟩ := hread
    cases heq
    obtain ⟨hno, hs⟩ := splitOnce_eq_some.1 hsplit
    refine ⟨by rwa [String.toList_ofList], String.toList_inj.1 ?_⟩
    simp [renderEntry, hs]
  · -- A key without one ends at the first
    rintro ⟨hno, rfl⟩
    have hsplit : splitOnce '=' (renderEntry (k, v)).toList = some (k.toList, v.toList) := by
      rw [splitOnce_eq_some]
      exact ⟨hno, by simp [renderEntry]⟩
    rw [readEntry, hsplit]
    simp

/-- An entry has a NUL byte in its key or in its value. -/
theorem hasNul_renderEntry {kv : String × String} :
    HasNul (renderEntry kv) ↔ HasNul kv.1 ∨ HasNul kv.2 := by
  have heq : ¬ HasNul "=" := by decide
  rw [← not_iff_not, renderEntry, not_hasNul_append, not_hasNul_append, not_or]
  simp [heq]

/-- A pair is read back unless it has a NUL byte, or its key a `=`. -/
theorem readEntry_renderEntry {kv : String × String} :
    readEntry (readCStr (renderEntry kv)) = some kv ↔
      ¬ HasNul (renderEntry kv) ∧ '=' ∉ kv.1.toList := by
  rw [readEntry_eq_some, readCStr_eq_self, and_comm]

/-! ## The pure part -/

/-- Strings are rendered if none of them has a NUL byte. -/
theorem mapM_cString_eq_ok {α : Type} {g : α → String} {l : List α} {l' : List String} :
    l.mapM (fun x => cString (g x)) = .ok l' ↔ (∀ x ∈ l, ¬ HasNul (g x)) ∧ l' = l.map g := by
  induction l generalizing l' with
  | nil =>
    rw [List.mapM_nil]
    constructor
    · intro heq
      cases heq
      exact ⟨fun _ hx => absurd hx List.not_mem_nil, rfl⟩
    · rintro ⟨-, rfl⟩
      rfl
  | cons x l ih =>
    rw [List.mapM_cons, List.forall_mem_cons]
    by_cases hx : HasNul (g x)
    · -- A NUL byte in the first string: both sides are false
      rw [cString_of_nul hx]
      constructor
      · intro heq
        cases heq
      · rintro ⟨⟨hno, -⟩, -⟩
        exact absurd hx hno
    · rw [cString_of_not_nul hx]
      -- None in the first string, so the rest decides
      cases hl : l.mapM fun x => cString (g x) with
      | error e =>
        constructor
        · intro heq
          cases heq
        · rintro ⟨⟨-, hno⟩, -⟩
          have hok := @ih (l.map g) |>.2 ⟨hno, rfl⟩
          rw [hl] at hok
          cases hok
      | ok l₀ =>
        obtain ⟨hno, rfl⟩ := ih.1 hl
        constructor
        · intro heq
          cases heq
          exact ⟨⟨hx, hno⟩, rfl⟩
        · rintro ⟨-, rfl⟩
          rfl

namespace ExecutableSpec

variable {exec : ExecutableSpec} {h : List Event}

/-- The argument vector: the program itself, then the arguments, none with a NUL byte. -/
theorem argv_eq_ok {program : String} {args : List String} : exec.argv program = .ok args ↔
    (∀ arg ∈ exec.arguments.getD [], ¬ HasNul arg) ∧
      args = program :: exec.arguments.getD [] := by
  -- The arguments are rendered as they are
  have hmap (l' : List String) : (exec.arguments.getD []).mapM cString = .ok l' ↔
      (∀ arg ∈ exec.arguments.getD [], ¬ HasNul arg) ∧ l' = exec.arguments.getD [] := by
    have hid := @mapM_cString_eq_ok _ id (exec.arguments.getD []) l'
    simpa using hid
  unfold argv
  cases hargs : (exec.arguments.getD []).mapM cString with
  | error e =>
    constructor
    · intro heq
      cases heq
    · rintro ⟨hno, -⟩
      -- An argument was refused, so some argument has a NUL byte
      have := (hmap _).2 ⟨hno, rfl⟩
      rw [hargs] at this
      cases this
  | ok args' =>
    obtain ⟨hno, rfl⟩ := (hmap _).1 hargs
    constructor
    · intro heq
      cases heq
      exact ⟨hno, rfl⟩
    · rintro ⟨-, rfl⟩
      rfl

/-- The environment: each entry rendered, none with a NUL byte. -/
theorem envp_eq_ok {env : List String} : exec.envp = .ok env ↔
    (∀ kv ∈ exec.pairs, ¬ HasNul (renderEntry kv)) ∧ env = exec.pairs.map renderEntry :=
  mapM_cString_eq_ok

/-- What `execute` does between rendering the vectors and `execvpe`. -/
def beforeExec (exec : ExecutableSpec) : Sys Unit := do
  Prog.whenSome exec.workingDirectory fun wd => do
    check (← sys (.setCurrentDir wd))
  Prog.when exec.noNewPrivs setNoNewPrivs
  exec.installSeccomp
  Prog.whenSome exec.apparmor fun profile =>
    (changeOnexec profile).mapErr
      (Err.context ("failed to set AppArmor profile " ++ profile.quote))
  resetSigpipe

/-- Without a NUL byte the vectors are those configured. -/
theorem execute_of_not_nul {executable : String} (hexec : exec.executable = some executable)
    (hnul : ¬ exec.HasNulString) : ∃ k : Except Errno Unit → Sys Unit,
      (exec.execute = sys (.enter .execute) >>= fun _ => exec.beforeExec >>= fun _ =>
        sys (.execvpe executable (executable :: exec.arguments.getD [])
          (exec.pairs.map renderEntry)) >>= k) ∧
      k (.ok ()) = pure () ∧ ∀ e, ∃ e', k (.error e) = Prog.fail e' := by
  rw [HasNulString, not_or, not_or] at hnul
  obtain ⟨hexecutable, hargs, henv⟩ := hnul
  -- Each rendering succeeds
  have hprogram : cString executable = .ok executable :=
    cString_of_not_nul fun hnul => hexecutable ⟨executable, hexec, hnul⟩
  have hargv : exec.argv executable = .ok (executable :: exec.arguments.getD []) :=
    argv_eq_ok.2 ⟨fun arg harg hnul => hargs ⟨arg, harg, hnul⟩, rfl⟩
  have henvp : exec.envp = .ok (exec.pairs.map renderEntry) :=
    envp_eq_ok.2 ⟨fun kv hkv hnul => henv ⟨kv, hkv, hasNul_renderEntry.1 hnul⟩, rfl⟩
  refine ⟨?rest, ?_, ?_, ?_⟩
  -- The continuation is read off once the renderings are gone
  rotate_left
  · unfold execute beforeExec
    rw [hexec, henvp]
    dsimp only
    simp only [orFail, check_ok, pure_bind, hprogram, hargv, bind_assoc]
    rfl
  · rfl
  · exact fun e => ⟨_, rfl⟩

/-- With one, or without an executable, there is an error. -/
theorem execute_of_nul (hnul : exec.executable = none ∨ exec.HasNulString) :
    ∃ e, exec.execute = (sys (.enter .execute) >>= fun _ => Prog.fail e) := by
  unfold execute
  cases hexec : exec.executable with
  | none => exact ⟨_, rfl⟩
  | some executable =>
    -- The program, the arguments and the environment are rendered in this order
    by_cases hprogram : HasNul executable
    · dsimp only
      simp only [orFail, check_ok, pure_bind, cString_of_nul hprogram]
      exact ⟨_, rfl⟩
    · dsimp only
      simp only [orFail, check_ok, pure_bind, cString_of_not_nul hprogram]
      cases hargv : exec.argv executable with
      | error e => exact ⟨_, rfl⟩
      | ok args =>
        cases henvp : exec.envp with
        | error e => exact ⟨_, rfl⟩
        | ok env =>
          -- Everything has been rendered, so none of the cases is left
          rcases hnul with hnone | ⟨_, hsome, hnul⟩ | ⟨arg, harg, hnul⟩ | ⟨kv, hkv, hnul⟩
          · rw [hexec] at hnone
            cases hnone
          · rw [hexec] at hsome
            cases hsome
            exact absurd hnul hprogram
          · exact absurd hnul ((argv_eq_ok.1 hargv).1 arg harg)
          · exact absurd (hasNul_renderEntry.2 hnul) ((envp_eq_ok.1 henvp).1 kv hkv)

/-! ## The run -/

/-- What is called before the workload is started. -/
theorem beforeExec_uses (exec : ExecutableSpec) :
    exec.beforeExec.Uses (Call.within [.file, .confine, .signal]) := by
  unfold beforeExec
  exact .bind (.whenSome fun _ _ => uses_checked _ rfl) fun _ =>
    .bind (.when fun _ => setNoNewPrivs_uses.widen (by decide)) fun _ =>
    .bind (exec.installSeccomp_uses.widen (by decide)) fun _ =>
    .bind (.whenSome fun _ _ => .mapErr ((changeOnexec_uses _).widen (by decide))) fun _ =>
    resetSigpipe_uses.widen (by decide)

/-- An execution that fails at once does not come to the workload. -/
theorem not_at_execvpe_of_fail {e : Err} {program : String} {args env : List String}
    (heq : exec.execute = (sys (.enter .execute) >>= fun _ => Prog.fail e)) :
    ¬ exec.execute.At h (.execvpe program args env) := by
  intro hat
  rw [heq] at hat
  rcases at_sys_bind.1 hat with ⟨-, heq⟩ | ⟨_, _, -, hat⟩
  · cases heq
  · exact at_fail hat

/-- The vectors that `execvpe` is given. -/
theorem execute_at_vectors {program : String} {args env : List String}
    (hat : exec.execute.At h (.execvpe program args env)) :
    ∃ executable, exec.executable = some executable ∧ ¬ exec.HasNulString ∧
      args = executable :: exec.arguments.getD [] ∧ env = exec.pairs.map renderEntry := by
  have hk : (Call.execvpe program args env).kind ∈ [.exec] := by simp [Call.kind]
  by_cases hnul : exec.executable = none ∨ exec.HasNulString
  · obtain ⟨e, heq⟩ := execute_of_nul hnul
    exact absurd hat (not_at_execvpe_of_fail heq)
  · rw [not_or] at hnul
    obtain ⟨executable, hexec⟩ := Option.ne_none_iff_exists'.1 hnul.1
    obtain ⟨k, heq, hok, herr⟩ := execute_of_not_nul hexec hnul.2
    rw [heq] at hat
    have henter : (sys (.enter .execute)).Uses (Call.within [.enterLate]) := uses_sys _ rfl
    -- What comes before the workload executes nothing
    obtain ⟨_, _, h₁, -, hat, -⟩ := henter.at_past (by decide) hk hat
    obtain ⟨⟨⟩, _, h₂, -, hat, -⟩ := exec.beforeExec_uses.at_past (by decide) hk hat
    rcases at_sys_bind.1 hat with ⟨-, heq⟩ | ⟨a, _, -, hat⟩
    · cases heq
      exact ⟨_, hexec, hnul.2, rfl, rfl⟩
    · -- After the call nothing is executed any more
      cases a with
      | ok u =>
        rw [hok] at hat
        exact absurd hat at_pure
      | error e =>
        obtain ⟨e', he⟩ := herr e
        rw [he] at hat
        exact absurd hat at_fail

/-- Strings without a NUL byte are read as they are. -/
theorem encodable_iff (hnul : ¬ exec.HasNulString) :
    exec.Encodable ↔ ∀ kv ∈ exec.pairs, '=' ∉ kv.1.toList := by
  rw [HasNulString, not_or, not_or] at hnul
  obtain ⟨hexecutable, hargs, henv⟩ := hnul
  constructor
  · intro henc kv hkv
    exact (readEntry_renderEntry.1 (henc.2.2 kv hkv)).2
  · intro hkeys
    refine ⟨fun executable hexec => ?_, fun arg harg => ?_, fun kv hkv => ?_⟩
    · exact readCStr_eq_self.2 fun hnul => hexecutable ⟨executable, hexec, hnul⟩
    · exact readCStr_eq_self.2 fun hnul => hargs ⟨arg, harg, hnul⟩
    · refine readEntry_renderEntry.2 ⟨fun hnul => henv ⟨kv, hkv, ?_⟩, hkeys kv hkv⟩
      exact hasNul_renderEntry.1 hnul

/-- What can be encoded is delivered. -/
theorem delivered_of_encodable {program : String} {args env : List String}
    (henc : exec.Encodable) (hat : exec.execute.At h (.execvpe program args env)) :
    exec.Delivered args env := by
  obtain ⟨executable, hexec, -, rfl, rfl⟩ := execute_at_vectors hat
  refine ⟨⟨executable, hexec, ?_⟩, List.Perm.of_eq ?_⟩
  · rw [List.map_cons, henc.1 executable hexec, List.map_congr_left henc.2.1, List.map_id']
  · rw [List.map_map]
    exact List.map_congr_left henc.2.2

/-- A filter without `no_new_privs` is an error where there is no directory to change to. -/
theorem execute_of_seccomp (hwd : exec.workingDirectory = none) (hnnp : exec.noNewPrivs = false)
    (hseccomp : exec.seccomp.isSome = true) :
    ∃ e, exec.execute = (sys (.enter .execute) >>= fun _ => Prog.fail e) := by
  by_cases hnul : exec.executable = none ∨ exec.HasNulString
  · exact execute_of_nul hnul
  · rw [not_or] at hnul
    obtain ⟨executable, hexec⟩ := Option.ne_none_iff_exists'.1 hnul.1
    obtain ⟨k, heq, -, -⟩ := execute_of_not_nul hexec hnul.2
    obtain ⟨filter, hfilter⟩ := Option.isSome_iff_exists.1 hseccomp
    have hbefore : exec.beforeExec =
        Prog.fail (.msg "seccomp filter requires no_new_privs = true") := by
      rw [beforeExec, hwd, hnnp, installSeccomp, hfilter, hnnp]
      rfl
    rw [heq, hbefore]
    exact ⟨_, rfl⟩

/-- An execution that fails at once is refused before anything is changed. -/
theorem refusedAtOnce_of_fail {e : Err}
    (heq : exec.execute = (sys (.enter .execute) >>= fun _ => Prog.fail e)) :
    exec.RefusedAtOnce := by
  rw [RefusedAtOnce, heq]
  refine ⟨.bind (.sys (I := calls) id) fun _ => .fail e, fun h r hr => ?_⟩
  obtain ⟨_, h', -, hr⟩ := runs_sys_bind.1 hr
  exact ⟨e, (runs_fail.1 hr).2⟩

/-- Without a filter everything up to `execvpe` can succeed. -/
theorem beforeExec_canEnd (hseccomp : exec.seccomp = none) : exec.beforeExec.CanEnd () := by
  have hopen (profile : String) : (changeOnexec profile).CanEnd () :=
    sys_bind_canEnd (.ok ()) (sys_bind_canEnd (.ok ()) (.pure ()))
  unfold beforeExec installSeccomp
  rw [hseccomp]
  exact .bind (.whenSome fun _ _ => sys_bind_canEnd (.ok ()) (.pure ())) <|
    .bind (.when fun _ => sys_bind_canEnd (.ok ()) (.pure ())) <|
    .bind (.pure ()) <| .bind (.whenSome fun profile _ => .mapErr (hopen profile)) <|
    sys_bind_canEnd (.ok ()) (.pure ())

/-- Otherwise it changes something or can reach the end, if no string has a NUL byte. -/
theorem not_refusedAtOnce (hexec : exec.executable ≠ none) (hnul : ¬ exec.HasNulString)
    (hgo : ¬ (exec.workingDirectory = none ∧ exec.noNewPrivs = false ∧
      exec.seccomp.isSome = true)) : ¬ exec.RefusedAtOnce := by
  obtain ⟨executable, hexec⟩ := Option.ne_none_iff_exists'.1 hexec
  obtain ⟨k, heq, hok, -⟩ := execute_of_not_nul hexec hnul
  rintro ⟨huses, herr⟩
  rw [heq] at huses herr
  -- Whatever comes first in `beforeExec` would be a call that changes nothing
  have hbefore : ∀ c, exec.beforeExec.At [] c → ¬ Changes c := by
    intro c hat
    refine huses [⟨.enter .execute, ()⟩] c (at_sys_bind.2 (.inr ⟨(), [], rfl, ?_⟩))
    exact at_bind.2 (.inl hat)
  cases hwd : exec.workingDirectory with
  | some wd =>
    refine hbefore (.setCurrentDir wd) ?_ trivial
    unfold beforeExec
    rw [hwd]
    exact ⟨_, .refl _⟩
  | none =>
    cases hnnp : exec.noNewPrivs with
    | true =>
      refine hbefore .prSetNoNewPrivs ?_ trivial
      unfold beforeExec
      rw [hwd, hnnp]
      exact ⟨_, .refl _⟩
    | false =>
      -- Nothing is configured before the call, so it can be reached and succeed
      have hseccomp : exec.seccomp = none := by
        rw [← Option.not_isSome_iff_eq_none]
        exact fun hsome => hgo ⟨hwd, hnnp, hsome⟩
      obtain ⟨h, hr⟩ : CanEnd (sys (.enter .execute) >>= fun _ => exec.beforeExec >>= fun _ =>
          sys (.execvpe executable (executable :: exec.arguments.getD [])
            (exec.pairs.map renderEntry)) >>= k) () :=
        sys_bind_canEnd () (.bind (beforeExec_canEnd hseccomp)
          (sys_bind_canEnd (.ok ()) (hok ▸ .pure ())))
      obtain ⟨e, he⟩ := herr h _ hr
      cases he

/-- The workload reads what was configured, or nothing has changed, unless a key has a `=`. -/
theorem execute_faithful_iff (exec : ExecutableSpec) : exec.Faithful ↔
    exec.executable = none ∨ exec.HasNulString ∨ (∀ kv ∈ exec.pairs, '=' ∉ kv.1.toList) ∨
      (exec.workingDirectory = none ∧ exec.noNewPrivs = false ∧ exec.seccomp.isSome = true) := by
  constructor
  · -- Otherwise the vectors do not name what the request does, and nothing refuses them
    intro hf
    by_contra hcond
    rw [not_or, not_or, not_or] at hcond
    obtain ⟨hexec, hnul, hkeys, hgo⟩ := hcond
    exact not_refusedAtOnce hexec hnul hgo (hf.refused fun henc => hkeys ((encodable_iff hnul).1 henc))
  · -- Every vector names what it should, or the execution fails before anything is changed
    intro hcond
    by_cases hkeys : ¬ exec.HasNulString ∧ ∀ kv ∈ exec.pairs, '=' ∉ kv.1.toList
    · have henc := (encodable_iff hkeys.1).2 hkeys.2
      exact ⟨fun _ _ _ _ hat => delivered_of_encodable henc hat, fun hno => absurd henc hno⟩
    · obtain ⟨e, heq⟩ : ∃ e, exec.execute = (sys (.enter .execute) >>= fun _ => Prog.fail e) := by
        rcases hcond with hnone | hnul | hfree | ⟨hwd, hnnp, hseccomp⟩
        · exact execute_of_nul (.inl hnone)
        · exact execute_of_nul (.inr hnul)
        · exact execute_of_nul (.inr (not_not.1 fun hnul => hkeys ⟨hnul, hfree⟩))
        · exact execute_of_seccomp hwd hnnp hseccomp
      exact ⟨fun _ _ _ _ hat => absurd hat (not_at_execvpe_of_fail heq),
        fun _ => refusedAtOnce_of_fail heq⟩

/-- A key with a `=` in it, with nothing else that could be refused. -/
def keyWithEquals : ExecutableSpec :=
  { (default : ExecutableSpec) with
    executable := some "/bin/true"
    environment := some ⟨[("A=B", "C")], by decide⟩ }

/-- It is read as another key. -/
theorem not_faithful_keyWithEquals : ¬ keyWithEquals.Faithful := by
  intro hf
  have henc : ¬ keyWithEquals.Encodable := by
    intro henc
    exact absurd (henc.2.2 ("A=B", "C") List.mem_cons_self) (by decide)
  refine not_refusedAtOnce ?_ ?_ ?_ (hf.refused henc)
  · decide
  · rintro (⟨_, heq, hnul⟩ | ⟨_, harg, -⟩ | ⟨kv, hkv, hnul⟩)
    · cases heq
      exact absurd hnul (by decide)
    · cases harg
    · rw [List.mem_singleton.1 hkv] at hnul
      exact absurd hnul (by decide)
  · exact fun hgo => absurd hgo.2.2 (by decide)

end ExecutableSpec

end Styrolite
