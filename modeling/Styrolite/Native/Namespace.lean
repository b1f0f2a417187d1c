import Styrolite.Native.Basic

/-!
# Namespaces

The namespace kinds and their `clone` flags (`namespace.rs`), and the flag word
that `unshare` and `setns` pass to the kernel (`unshare.rs`).
-/

namespace Styrolite

/-- A new time namespace, for the children. -/
def CLONE_NEWTIME : CInt := 0x00000080
/-- A new mount namespace. -/
def CLONE_NEWNS : CInt := 0x00020000
/-- A new cgroup namespace. -/
def CLONE_NEWCGROUP : CInt := 0x02000000
/-- A new UTS namespace, of the hostname. -/
def CLONE_NEWUTS : CInt := 0x04000000
/-- A new IPC namespace. -/
def CLONE_NEWIPC : CInt := 0x08000000
/-- A new user namespace. -/
def CLONE_NEWUSER : CInt := 0x10000000
/-- A new pid namespace, for the children. -/
def CLONE_NEWPID : CInt := 0x20000000
/-- A new network namespace. -/
def CLONE_NEWNET : CInt := 0x40000000

/-- The kinds of namespaces. -/
inductive Namespace where
  | mount | uts | ipc | user | pid | net | cgroup | time
  deriving DecidableEq, Repr

namespace Namespace

/-- `Namespace::to_clone_flags`. -/
def toCloneFlags : Namespace → CInt
  | mount => CLONE_NEWNS
  | uts => CLONE_NEWUTS
  | ipc => CLONE_NEWIPC
  | user => CLONE_NEWUSER
  | pid => CLONE_NEWPID
  | net => CLONE_NEWNET
  | cgroup => CLONE_NEWCGROUP
  | time => CLONE_NEWTIME

/-- `iter.into_iter().fold(0, |acc, x| acc | to_clone_flags(*x))`. -/
def cloneFlags (nss : List Namespace) : CInt :=
  nss.foldl (fun acc x => acc ||| x.toCloneFlags) 0

/-- The kind `ns` is named in the flag word. -/
def inFlags (ns : Namespace) (flags : CInt) : Prop := flags &&& ns.toCloneFlags ≠ 0

/-- Whether flags ask for a namespace can be computed. -/
instance (ns : Namespace) (flags : CInt) : Decidable (ns.inFlags flags) :=
  inferInstanceAs (Decidable (_ ≠ _))

/-- Each kind has a bit of its own, so the flag word names exactly the kinds of the list. -/
theorem toCloneFlags_inFlags (ns ns' : Namespace) :
    ns.inFlags ns'.toCloneFlags ↔ ns = ns' := by
  cases ns <;> cases ns' <;> decide

/-- Flags put together ask for what either does. -/
theorem inFlags_or (ns : Namespace) (a b : CInt) :
    ns.inFlags (a ||| b) ↔ ns.inFlags a ∨ ns.inFlags b := by
  have hbit : ∃ i, i < 32 ∧ ns.toCloneFlags = BitVec.twoPow 32 i := by
    cases ns <;> decide
  obtain ⟨i, hi, hns⟩ := hbit
  simp only [inFlags, hns, BitVec.and_twoPow, BitVec.getLsbD_or]
  cases a.getLsbD i <;> cases b.getLsbD i <;> simp

/-- The flags of a list of kinds ask for exactly these. -/
@[simp] theorem inFlags_cloneFlags (ns : Namespace) (nss : List Namespace) :
    ns.inFlags (cloneFlags nss) ↔ ns ∈ nss := by
  suffices ∀ acc, ns.inFlags (nss.foldl (fun acc x => acc ||| x.toCloneFlags) acc) ↔
      ns.inFlags acc ∨ ns ∈ nss by
    have hzero : ¬ ns.inFlags 0 := by simp [inFlags]
    rw [cloneFlags, this 0, or_iff_right hzero]
  induction nss with
  | nil => simp
  | cons x nss ih =>
    intro acc
    rw [List.foldl_cons, ih, inFlags_or, toCloneFlags_inFlags, List.mem_cons, or_assoc]

end Namespace

end Styrolite
