import Styrolite.Native.Caps

/-!
# Control groups

`cgroup.rs`: a control group is the path of its directory. A path built here
from strings is valid UTF-8, so the `to_str` checks of the source always pass.
-/

namespace Styrolite

structure CGroup where
  root : String
  deriving DecidableEq, Repr

namespace CGroup

def openRoot (root : String) : Sys CGroup := do
  let path ← orFail (cString root)
  check (← sys (.faccessat path))
  pure { root := root }

/-- Creates a child hierarchy and opens it. -/
def createChild (g : CGroup) (child : String) : Sys CGroup := do
  let finalpath := pathPush g.root child
  check (← sys (.fsCreateDirAll finalpath))
  openRoot finalpath

/-- Writes a file of the control group. -/
def setChildValue (g : CGroup) (child value : String) : Sys Unit := do
  check (← sys (.fsWrite (pathPush g.root child) value))

end CGroup

end Styrolite
