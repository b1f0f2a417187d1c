import Styrolite.Native.Mount

/-!
# Capability and signal system calls

The part of `caps.rs` that talks to the kernel, `Capabilities::names_as_bits`
with its hash-ordered result, and the signal dispositions of `signal.rs`.
-/

namespace Styrolite

def SECBIT_NO_SETUID_FIXUP : CInt := 4

/-- Reads the caller's capability sets. -/
def getCaps : Sys CapResult := do
  let pid ← sys .getpid
  let data ← (check (← sys (.capget pid))).mapErr (Err.context "capget(2) failed")
  pure (capDataToResult data)

/-- The sets as `capset` prints them when it fails, with the words in `data` order. -/
def capsetFailure (data : CapInternalData × CapInternalData) : String :=
  "capset(2) failed (effective=" ++ lowerHex (wordsToMask data.1.effective data.2.effective) ++
    " permitted=" ++ lowerHex (wordsToMask data.1.permitted data.2.permitted) ++
    " inheritable=" ++ lowerHex (wordsToMask data.1.inheritable data.2.inheritable) ++ ")"

/-- Sets the caller's capability sets. -/
def setCaps (caps : CapResult) : Sys Unit := do
  let pid ← sys .getpid
  let data := capResultToData caps
  (check (← sys (.capset pid data))).mapErr (Err.context (capsetFailure data))

def setKeepCaps : Sys Unit := do
  (check (← sys (.prSetSecurebits SECBIT_NO_SETUID_FIXUP))).mapErr
    (Err.context "failed to set SECBIT_NO_SETUID_FIXUP")

/-- The capabilities named, in the iteration order of the `HashSet` they were collected in. -/
def Capabilities.namesAsBits (names : List String) : Sys (List CapabilityBit) := do
  let caps ← orFail (Capabilities.namesAsSet names)
  let l ← sys (.capHashIter caps)
  pure l.1

/-! ## Signals -/

def Signal.name : Signal → String
  | SIGTERM => "SIGTERM"
  | SIGINT => "SIGINT"
  | SIGQUIT => "SIGQUIT"
  | SIGHUP => "SIGHUP"
  | SIGUSR1 => "SIGUSR1"
  | SIGUSR2 => "SIGUSR2"
  | SIGPIPE => "SIGPIPE"

/-- The signals the supervisor forwards to its child. -/
def forwardedSignals : List Signal := [.SIGTERM, .SIGINT, .SIGQUIT, .SIGHUP, .SIGUSR1, .SIGUSR2]

/-- `forward_signal`: the `kill` that the handler makes, in a process whose `CHILD_PID` is as
    given. (The conversion of the signal's number cannot fail for these signals.) -/
def forwardSignal (childPid : Int) (sig : Signal) : Option (Int × Signal) :=
  if childPid ≤ 0 then none else some (childPid, sig)

def setupParentSignalHandlers : Sys Unit :=
  forM forwardedSignals fun sig => do
    (check (← sys (.signal sig .forwardSignal))).mapErr
      (Err.context ("Failed to set signal handler for " ++ sig.name))

def resetChildSignalHandlers : Sys Unit :=
  forM forwardedSignals fun sig => do
    (check (← sys (.signal sig .sigDfl))).mapErr
      (Err.context ("Failed to reset signal handler for " ++ sig.name))

/-- The Rust runtime ignores SIGPIPE, and `execve` would pass that on to the workload. -/
def resetSigpipe : Sys Unit := do
  (check (← sys (.signal .SIGPIPE .sigDfl))).mapErr
    (Err.context "Failed to reset SIGPIPE handler")

/-- `if let Err(e) = handlers { ...; process::exit(1) }`. -/
def orExit (handlers : Sys Unit) : Sys Unit := do
  match ← attempt handlers with
  | .error _ => Prog.halt 1
  | .ok () => pure ()

end Styrolite
