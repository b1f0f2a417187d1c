import Styrolite.Native.Capability

/-!
# System calls

Every effect of the modelled code is a `Call`: a system call, a function of
`std::fs` or `nix` on top of one, or a choice that the standard library leaves
open (the iteration order of a `HashSet`). `Call.Answer` is the result each may
have; a call that can fail answers with `Except Errno`.

Three modelling choices are worth a note. An eventfd is named by the variable
that holds it. `reapChildren` stands for the whole `waitpid(None, WNOHANG)`
loop. `enter` has no effect and is not in the source: it marks that control has
entered a function, for statements about when one runs.
-/

namespace Styrolite

/-- The two eventfds of `CreateRequest::wrap`, by the variable that holds them. -/
inductive Efd where
  | parent | child
  deriving DecidableEq, Repr

/-- The counter of the eventfd is taken down one by one. -/
def EFD_SEMAPHORE : Nat := 1

/-- What `fork` returns: the child's pid in the parent. -/
inductive ForkResult where
  | parent (child : Int)
  | child
  deriving DecidableEq, Repr

/-- The signals that the program sets handlers for. -/
inductive Signal where
  | SIGTERM | SIGINT | SIGQUIT | SIGHUP | SIGUSR1 | SIGUSR2 | SIGPIPE
  deriving DecidableEq, Repr

/-- The handlers it sets: its own, or the default. -/
inductive SigHandler where
  | forwardSignal | sigDfl
  deriving DecidableEq, Repr

/-- What `waitpid` says of a child. -/
inductive WaitStatus where
  | exited (pid : Int) (code : Int)
  | stillAlive
  | other
  deriving DecidableEq, Repr

/-- The resources of `setrlimit(2)` the code sets. -/
inductive RLimit where
  | as | core | cpu | data | fsize | memlock | msgqueue | nice | nofile | nproc | rss
  | rtprio | rttime | sigpending | stack
  deriving DecidableEq, Repr

/-- What `fs::metadata` and `fs::symlink_metadata` are asked for. -/
structure Metadata where
  isDir : Bool
  deriving DecidableEq, Repr

/-- The procfs files that are written with `fs::write`. -/
inductive ProcFile where
  | timensOffsets
  | uidMap (pid : Int)
  | setgroups (pid : Int)
  | gidMap (pid : Int)
  | oomScoreAdj
  deriving DecidableEq, Repr

/-- Where the file is. -/
def ProcFile.path : ProcFile → String
  | timensOffsets => "/proc/self/timens_offsets"
  | uidMap pid => "/proc/" ++ toString pid ++ "/uid_map"
  | setgroups pid => "/proc/" ++ toString pid ++ "/setgroups"
  | gidMap pid => "/proc/" ++ toString pid ++ "/gid_map"
  | oomScoreAdj => "/proc/self/oom_score_adj"

/-- `struct mount_attr`, without the fields the code leaves 0. -/
structure MountAttr where
  attrSet : U64
  attrClr : U64
  deriving DecidableEq, Repr

/-- Where `mount_setattr(2)` looks up its path. -/
inductive DirFd where
  | cwd
  | tree (fd : Nat)
  deriving DecidableEq, Repr

/-- The operation on the ambient set. -/
inductive AmbientOp where
  | lower | raise
  deriving DecidableEq, Repr

/-- Functions whose entry is marked in the model. -/
inductive Fn where
  | pivotFs
  | prepareUserns (pid : Int)
  | setupConsole
  | preexecPrep
  | execute
  deriving DecidableEq, Repr

/-- The calls that the program makes, with the arguments that it passes on. -/
inductive Call where
  -- the process and its environment
  | getpid
  | clockGettimeBoottime
  | capHashIter (s : Finset CapabilityBit)
  | strHashIter (s : Finset String)
  | isatty (fd : Nat)
  | enter (f : Fn)
  -- files
  | fsWrite (path contents : String)
  | procWrite (file : ProcFile) (contents : String)
  | fsCreateDirAll (path : String)
  | fsFileCreate (path : String)
  | fsMetadata (path : String)
  | fsSymlinkMetadata (path : String)
  | fsExists (path : String)
  | fsReadLink (path : String)
  | fsReadToString (path : String)
  | fsReadDir (path : String)
  | fsOpenWrite (path : String)
  | fsWriteAll (path contents : String)
  | faccessat (path : String)
  | setCurrentDir (path : String)
  -- namespaces
  | unshare (flags : CInt)
  | pidfdOpen (pid : Int)
  | setns (target : Int) (flags : CInt)
  | sethostname (name : String)
  -- processes, signals and eventfds
  | setrlimit (resource : RLimit) (cur max : U64)
  | signal (sig : Signal) (handler : SigHandler)
  | storeChildPid (pid : Int)
  | eventfd (efd : Efd) (initval flags : Nat)
  | efdRead (efd : Efd)
  | efdWrite (efd : Efd) (value : Nat)
  | fork
  | waitpid (pid : Int)
  | reapChildren
  -- mounts
  | mount (source : Option String) (target : String) (fstype : Option String) (flags : U64)
      (data : Option String)
  | openTree (path : String) (flags : CInt)
  | mountSetattr (dir : DirFd) (path : String) (flags : CInt) (attr : MountAttr)
  | pivotRoot (newRoot putOld : String)
  | umount2 (target : String) (flags : CInt)
  -- credentials
  | getuid
  | getgid
  | setuid (uid : UInt32)
  | setgid (gid : UInt32)
  | setgroups (gids : List UInt32)
  | fchown (fd : Nat) (uid : UInt32)
  | prSetSecurebits (bits : CInt)
  | prCapbsetDrop (cap : Nat)
  | prCapAmbient (op : AmbientOp) (cap : Nat)
  | capget (pid : Nat)
  | capset (pid : Nat) (data : CapInternalData × CapInternalData)
  -- the last steps before the workload
  | prSetNoNewPrivs
  | seccomp (filter : List BpfInstruction) (len : UInt16)
  | execvpe (program : String) (argv envp : List String)
  deriving DecidableEq

/-- The answers a call may get. The two hash orders list each element of the set once. -/
@[reducible] def Call.Answer : Call → Type
  | getpid => Nat
  | clockGettimeBoottime => Except Errno Int
  | capHashIter s => { l : List CapabilityBit // l.Nodup ∧ ∀ c, c ∈ l ↔ c ∈ s }
  | strHashIter s => { l : List String // l.Nodup ∧ ∀ x, x ∈ l ↔ x ∈ s }
  | isatty _ => Bool
  | enter _ => Unit
  | fsMetadata _ => Except Errno Metadata
  | fsSymlinkMetadata _ => Except Errno Metadata
  | fsExists _ => Bool
  | fsReadLink _ => Except Errno String
  | fsReadToString _ => Except Errno String
  | fsReadDir _ => Except Errno (List (Except Errno String))
  | pidfdOpen _ => Except Errno Unit
  | storeChildPid _ => Unit
  | efdRead _ => Except Errno Nat
  | fork => Except Errno ForkResult
  | waitpid _ => Except Errno WaitStatus
  | reapChildren => List WaitStatus
  | openTree _ _ => Except Errno Nat
  | getuid => UInt32
  | getgid => UInt32
  | capget _ => Except Errno (CapInternalData × CapInternalData)
  | _ => Except Errno Unit

/-- The interface styrolite is written against. -/
abbrev calls : Interface := ⟨Call, Call.Answer⟩

/-- A call with its answer. -/
abbrev Event := calls.Event

/-- Code of type `anyhow::Result<α>`. -/
abbrev Sys (α : Type) := Prog calls Err α

/-- The call's answer. -/
def sys (c : Call) : Sys c.Answer := Prog.sys (I := calls) c

/-- `?` on an `io::Result`. -/
def check {α : Type} (x : Except Errno α) : Sys α := Prog.check Err.os x

/-- `?` on a value computed without calls. -/
def orFail {α : Type} (x : Except Err α) : Sys α := Prog.check id x

/-- The result of code whose error is not passed on by `?`. -/
abbrev attempt {α : Type} (p : Sys α) : Sys (Except Err α) := Prog.attempt p

section

variable {α β : Type} {c d : Call} {h : List Event}

/-- A single call ends well, with its answer. -/
@[simp] theorem runs_sys_ok {a : c.Answer} :
    Prog.Runs (α := no_index c.Answer) (sys c) h (Outcome.ok (α := no_index c.Answer) a) ↔
      h = [⟨c, a⟩] := by
  refine (Prog.runs_sys (I := calls)).trans ?_
  constructor
  · rintro ⟨b, rfl, heq⟩
    cases heq
    rfl
  · rintro rfl
    exact ⟨a, rfl, rfl⟩

/-- A check that ends well has a value. -/
@[simp] theorem runs_check_ok {x : Except Errno α} {a : α} :
    (check x).Runs h (.ok a) ↔ h = [] ∧ x = .ok a := by
  simp [check]

/-- `orFail` ends well on a value. -/
@[simp] theorem runs_orFail_ok {x : Except Err α} {a : α} :
    (orFail x).Runs h (.ok a) ↔ h = [] ∧ x = .ok a := by
  simp [orFail]

/-- A single call comes to be made at once. -/
@[simp] theorem at_sys_iff :
    Prog.At (α := no_index c.Answer) (sys c) h d ↔ h = [] ∧ d = c :=
  Prog.at_sys (I := calls)

/-- A check makes no call. -/
@[simp] theorem not_at_check {x : Except Errno α} : ¬ (check x).At h d := Prog.at_check

/-- `orFail` makes no call. -/
@[simp] theorem not_at_orFail {x : Except Err α} : ¬ (orFail x).At h d := Prog.at_check

/-- The calls of a sequence that begins with a call. -/
theorem at_sys_bind {k : c.Answer → Sys α} :
    (Bind.bind (α := no_index c.Answer) (sys c) k).At h d ↔
      (h = [] ∧ d = c) ∨ ∃ a h', h = ⟨c, a⟩ :: h' ∧ (k a).At h' d :=
  Prog.at_call (I := calls)

/-- The runs of a sequence that begins with a call. -/
theorem runs_sys_bind {k : c.Answer → Sys α} {r : Outcome Err α} :
    (Bind.bind (α := no_index c.Answer) (sys c) k).Runs h r ↔
      ∃ a h', h = ⟨c, a⟩ :: h' ∧ (k a).Runs h' r :=
  Prog.runs_call (I := calls)

/-- After a check that is passed, the calls are those of what follows. -/
theorem at_check_bind {x : Except Errno β} {k : β → Sys α} :
    (check x >>= k).At h d ↔ ∃ b, x = .ok b ∧ (k b).At h d := by
  cases x with
  | error e => exact ⟨fun hat => absurd hat Prog.at_done, fun ⟨_, hx, _⟩ => nomatch hx⟩
  | ok b => exact ⟨fun hat => ⟨b, rfl, hat⟩, fun ⟨_, rfl, hat⟩ => hat⟩

/-- A check that is passed has no part in the run. -/
theorem runs_check_bind_ok {x : Except Errno β} {k : β → Sys α} {a : α} :
    (check x >>= k).Runs h (.ok a) ↔ ∃ b, x = .ok b ∧ (k b).Runs h (.ok a) := by
  cases x with
  | error e => exact ⟨fun hr => (nomatch (Prog.runs_done.1 hr).2), fun ⟨_, hx, _⟩ => nomatch hx⟩
  | ok b => exact ⟨fun hr => ⟨b, rfl, hr⟩, fun ⟨_, rfl, hr⟩ => hr⟩

/-- After `orFail` on a value, the calls are those of what follows. -/
theorem at_orFail_bind {x : Except Err β} {k : β → Sys α} :
    (orFail x >>= k).At h d ↔ ∃ b, x = .ok b ∧ (k b).At h d := by
  cases x with
  | error e => exact ⟨fun hat => absurd hat Prog.at_done, fun ⟨_, hx, _⟩ => nomatch hx⟩
  | ok b => exact ⟨fun hat => ⟨b, rfl, hat⟩, fun ⟨_, rfl, hat⟩ => hat⟩

/-- A call that was run is an event of the history. -/
theorem ranIn_sys {a : c.Answer}
    (hr : Prog.RanIn (α := no_index c.Answer) (sys c) h a) : ⟨c, a⟩ ∈ h :=
  Prog.RanIn.sys (I := calls) hr

/-- A check that was run had a value. -/
theorem ranIn_check {x : Except Errno α} {a : α} (hr : (check x).RanIn h a) : x = .ok a :=
  Prog.RanIn.check hr

/-- `orFail` that was run had a value. -/
theorem ranIn_orFail {x : Except Err α} {a : α} (hr : (orFail x).RanIn h a) : x = .ok a :=
  Prog.RanIn.check hr

/-- One call whose error is passed on, and which has succeeded. -/
theorem mem_of_checked {f : c.Answer → Except Errno α} {a : α}
    (hr : (sys c >>= fun r => check (f r)).RanIn h a) : ∃ r, ⟨c, r⟩ ∈ h ∧ f r = .ok a := by
  obtain ⟨r, hs, hc⟩ := hr.bind
  exact ⟨r, ranIn_sys hs, ranIn_check hc⟩

/-- One call whose error is passed on. -/
theorem runs_checked_ok {f : c.Answer → Except Errno α} {a : α} :
    (sys c >>= fun r => check (f r)).Runs h (.ok a) ↔ ∃ r, h = [⟨c, r⟩] ∧ f r = .ok a := by
  simp only [Prog.runs_bind_ok, runs_sys_ok, runs_check_ok]
  constructor
  · rintro ⟨r, h₁, h₂, rfl, ⟨rfl, hf⟩, rfl⟩
    exact ⟨r, by simp, hf⟩
  · rintro ⟨r, rfl, hf⟩
    exact ⟨r, _, [], rfl, ⟨rfl, hf⟩, by simp⟩

end

/-- What the call acts on. -/
inductive Call.Kind where
  | env | enterPivot | enterUserns | enterLate | file | userns | oom | ns | uts | rlimit
  | signal | eventfd | efd | fork | wait | mount | pivot | chown | cred | confine | exec
  deriving DecidableEq, Repr

/-- The kind of a call. -/
def Call.kind : Call → Kind
  | getpid | clockGettimeBoottime | capHashIter _ | strHashIter _ | isatty _ => .env
  | enter .pivotFs => .enterPivot
  | enter (.prepareUserns _) => .enterUserns
  | enter .setupConsole | enter .preexecPrep | enter .execute => .enterLate
  | procWrite (.uidMap _) _ | procWrite (.setgroups _) _ | procWrite (.gidMap _) _ => .userns
  | procWrite .oomScoreAdj _ => .oom
  | procWrite .timensOffsets _ => .file
  | fsWrite _ _ | fsCreateDirAll _ | fsFileCreate _ | fsMetadata _ | fsSymlinkMetadata _
  | fsExists _ | fsReadLink _ | fsReadToString _ | fsReadDir _ | fsOpenWrite _
  | fsWriteAll _ _ | faccessat _ | setCurrentDir _ => .file
  | unshare _ | pidfdOpen _ | setns _ _ => .ns
  | sethostname _ => .uts
  | setrlimit _ _ _ => .rlimit
  | signal _ _ | storeChildPid _ => .signal
  | eventfd _ _ _ => .eventfd
  | efdRead _ | efdWrite _ _ => .efd
  | fork => .fork
  | waitpid _ | reapChildren => .wait
  | mount _ _ _ _ _ | openTree _ _ | mountSetattr _ _ _ _ | umount2 _ _ => .mount
  | pivotRoot _ _ => .pivot
  | fchown _ _ => .chown
  | getuid | getgid | setuid _ | setgid _ | setgroups _ | prSetSecurebits _
  | prCapbsetDrop _ | prCapAmbient _ _ | capget _ | capset _ _ => .cred
  | prSetNoNewPrivs | seccomp _ _ => .confine
  | execvpe _ _ _ => .exec

/-- The call is of one of the kinds. -/
def Call.within (ks : List Call.Kind) (c : Call) : Prop := c.kind ∈ ks

/-- The kind is looked up in the list. -/
instance (ks : List Call.Kind) (c : Call) : Decidable (c.within ks) :=
  inferInstanceAs (Decidable (_ ∈ ks))

end Styrolite
