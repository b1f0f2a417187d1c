import Styrolite.ForStd.BufWriter
import Styrolite.Native.Config

/-!
# The runner's configuration file

`Runner::write_config` of `runner.rs`. The file is written through a `BufWriter`;
what `serde_json` writes for a configuration, and in which pieces, is a
parameter.
-/

namespace Styrolite

/-- An error of `std::io`: of the system call, or for a `write` that takes no byte. -/
inductive IoError where
  | os (e : Errno)
  | writeZero
  deriving DecidableEq, Repr

def IoError.toErr : IoError → Err
  | os e => .os e
  | writeZero => .msg "failed to write whole buffer"

namespace Runner

/-- `Config`: a request, tagged with its kind. -/
inductive Config where
  | create (req : CreateRequest)
  | attach (req : AttachRequest)

/-- The traits `Validatable` and `Configurable`. -/
class Configurable (T : Type) where
  validate : T → Except Err Unit
  encapsulate : T → Except Err Config

instance : Configurable CreateRequest where
  validate _ := .ok ()
  encapsulate req := .ok (.create req)

instance : Configurable AttachRequest where
  validate _ := .ok ()
  encapsulate req := .ok (.attach req)

/-- The capacity of `BufWriter::new`. -/
def DEFAULT_BUF_SIZE : Nat := 8 * 1024

/-- The block in `write_config`. The writer is dropped at its end, also when `?` leaves it. -/
def writeEncoding (pieces : List (List UInt8)) : Prog (sink UInt8 IoError) Err Unit := do
  let (r, w) ← BufWriter.writePieces .writeZero (.new DEFAULT_BUF_SIZE) pieces
  BufWriter.drop .writeZero w
  Prog.check IoError.toErr r

/-- Writes the configuration to the file that takes the calls. -/
def writeConfig {T : Type} [Configurable T] (pieces : Config → List (List UInt8)) (config : T) :
    Prog (sink UInt8 IoError) Err Unit := do
  Prog.check id (Configurable.validate config)
  let encapConfig ← Prog.check id (Configurable.encapsulate config)
  writeEncoding (pieces encapConfig)
  Prog.check IoError.toErr (← Prog.sys (I := sink UInt8 IoError) .flush)

end Runner

end Styrolite
