import Styrolite.ForStd.Interfaces
import Styrolite.Native.Attach
import Styrolite.Native.Runner

/-!
# Starting styrolite

`Runner::run` and `Runner::exec` of `runner.rs`, which start the `styrolite`
program with the path of a configuration file, and the `main` of that program
(`bin/styrolite.rs`). The path that `TempFile::new` makes up, what becomes of the
started process and what is in a file are answers, and which configuration
`serde_json` finds in a file is a parameter. The first writes its file through the
calls of a sink, the second ends with those of a request's `wrap`.
-/

namespace Styrolite

/-- What `Command::status` tells of a process: its exit code, or else how it prints. -/
inductive ExitStatus where
  | exited (code : Int)
  | other (display : String)
  deriving DecidableEq, Repr

inductive HostCall where
  | tempFile (before after : String)
  | status (program arg : String)
  | exec (program arg : String)
  deriving DecidableEq, Repr

/-- `exec` comes back only with an error. -/
@[reducible] def HostCall.Answer : HostCall → Type
  | tempFile _ _ => Except Errno String
  | status _ _ => Except Errno ExitStatus
  | exec _ _ => Errno

abbrev host : Interface := ⟨HostCall, HostCall.Answer⟩

/-- Code of the process that starts styrolite. -/
abbrev Host (α : Type) := Prog (host.or (sink UInt8 IoError)) Err α

def hostSys (c : HostCall) : Host c.Answer := Prog.sysInl (I := host) c

namespace Runner

section

variable {T : Type} [Configurable T] (pieces : Config → List (List UInt8))

/-- The temporary file with the configuration in it. -/
def configFile (config : T) : Host String := do
  let path ← Prog.check Err.os (← hostSys (.tempFile "styrolite-cfg-" ".json"))
  (writeConfig pieces config).inr
  pure path

/-- Runs the container; the result is styrolite's exit code. -/
def run (executable : String) (config : T) : Host Int := do
  let path ← configFile pieces config
  match ← Prog.check Err.os (← hostSys (.status executable path)) with
  | .exited code => pure code
  | .other display =>
    Prog.fail (.msg ("styrolite runner '" ++ executable ++ "' did not exit normally: " ++ display))

/-- Replaces the process by styrolite. -/
def exec (executable : String) (config : T) : Host Unit := do
  let path ← configFile pieces config
  let err : Errno ← hostSys (.exec executable path)
  Prog.fail (Err.context ("failed to exec styrolite runner '" ++ executable ++ "'") (.os err))

end

/-- The trait `Wrappable`. -/
def Config.wrap : Config → Sys Unit
  | .create req => req.wrap
  | .attach req => req.wrap

end Runner

inductive FileCall where
  | pathExists (path : String)
  | read (path : String)
  deriving DecidableEq, Repr

@[reducible] def FileCall.Answer : FileCall → Type
  | pathExists _ => Bool
  | read _ => Except Errno (List UInt8)

abbrev files : Interface := ⟨FileCall, FileCall.Answer⟩

def fileSys (c : FileCall) : Prog (files.or calls) Err c.Answer :=
  Prog.sysInl (I := files) c

/-- `main` of `bin/styrolite.rs`, with the arguments of the process, its name the first. -/
def styroliteMain (parse : List UInt8 → Option Runner.Config) (args : List String) :
    Prog (files.or calls) Err Unit := do
  match args[1]? with
  | none => Prog.fail (.msg "missing config file path (usage: styrolite <config.json>)")
  | some configPath =>
    let there : Bool ← fileSys (.pathExists configPath)
    if there then do
      let raw : List UInt8 ← Prog.check
        (fun e => Err.context ("failed to read config file '" ++ configPath ++ "'") (.os e))
        (← fileSys (.read configPath))
      match parse raw with
      | none => Prog.fail (.msg ("failed to parse config file '" ++ configPath ++ "'"))
      | some config => config.wrap.inr
    else Prog.fail (.msg ("config file '" ++ configPath ++ "' does not exist"))

/-- The status a process ends with, of which the kernel keeps eight bits; an error that `main`
    returns makes it 1. -/
def exitCode : Outcome Err Unit → Int
  | .ok () => 0
  | .err _ => 1
  | .halt code => code % 256

end Styrolite
