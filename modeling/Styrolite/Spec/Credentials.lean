import Styrolite.ForStd.CapSets
import Styrolite.ForStd.LocalRules
import Styrolite.Spec.Schedule

/-!
# Credentials

The rules of Linux for the user and group ids of a process, its securebits and
its capability sets. A process has its credentials to itself, so they are a
function of its own history, and the kernel's rules restrict the answers given
after it (`credRules`). A call may be refused at any time.

The credentials a history starts from are those in the user namespace in which
`preexec_prep` is entered: no earlier step of either `wrap` changes ids or
capabilities but by entering a namespace.
-/

namespace Styrolite

open Prog Kernel

/-! ## Ids -/

/-- A user namespace's map between its ids and the kernel's. -/
structure IdMap where
  toKernel : UInt32 → Option UInt32
  fromKernel : UInt32 → Option UInt32
  inverse : ∀ id k, toKernel id = some k ↔ fromKernel k = some id

/-- What an id without a mapping is reported as. -/
def OVERFLOW_ID : UInt32 := 65534

/-- The id a process is told. -/
def IdMap.report (m : IdMap) (k : UInt32) : UInt32 := (m.fromKernel k).getD OVERFLOW_ID

/-- The map of the initial user namespace, in which `(uid_t) -1` is no id. -/
def IdMap.initial : IdMap where
  toKernel id := if id = 0xFFFFFFFF then none else some id
  fromKernel k := if k = 0xFFFFFFFF then none else some k
  inverse id k := by
    split <;> split <;> simp_all [eq_comm]

/-- The ids of a process, as the kernel numbers them. -/
structure Ids where
  real : UInt32
  effective : UInt32
  saved : UInt32
  deriving DecidableEq, Repr

/-- All three ids are `k`. -/
def Ids.all (k : UInt32) : Ids := ⟨k, k, k⟩

/-- What `setuid(2)` and `setgid(2)` make of the ids. -/
def Ids.set (ids : Ids) (privileged : Prop) [Decidable privileged] (k : UInt32) : Ids :=
  if privileged then .all k else { ids with effective := k }

/-! ## Securebits -/

/-- The secure bits of `prctl(2)`. -/
def SECBIT_NOROOT : CInt := 1
/-- Capabilities are kept when the ids change. -/
def SECBIT_KEEP_CAPS : CInt := 16
/-- The ambient set cannot be raised. -/
def SECBIT_NO_CAP_AMBIENT_RAISE : CInt := 64
/-- All the bits that can be set. -/
def SECURE_ALL_BITS : CInt := 0x55
/-- All the bits that lock another. -/
def SECURE_ALL_LOCKS : CInt := 0xAA

/-- The bits of `b` are on. -/
def hasBits (bits b : CInt) : Bool := bits &&& b == b

/-! ## Masks -/

/-- The capabilities in a mask; the kernel drops the bits that are none. -/
def capsOf (m : U64) : Finset CapabilityBit := CapabilityBit.all.toFinset.filter (·.inMask m)

/-- The mask of a set of capabilities. -/
def maskOf (s : Finset CapabilityBit) : U64 :=
  CapabilityBit.rawBits (CapabilityBit.all.filter (· ∈ s))

/-- What is in the set of a mask. -/
@[simp] theorem mem_capsOf {c : CapabilityBit} {m : U64} : c ∈ capsOf m ↔ c.inMask m := by
  simp [capsOf, c.mem_all]

/-- A set is what its mask has. -/
@[simp] theorem capsOf_maskOf (s : Finset CapabilityBit) : capsOf (maskOf s) = s := by
  ext c
  rw [mem_capsOf, maskOf, CapabilityBit.rawBits, CapabilityBit.inMask_setBits]
  simp [CapabilityBit.inMask, c.mem_all]

/-- The capability with the number, if there is one. -/
def capNumbered (n : Nat) : Option CapabilityBit :=
  CapabilityBit.all.find? (·.toCapNumber = n)

/-- A capability's number is its own. -/
@[simp] theorem capNumbered_toCapNumber (c : CapabilityBit) :
    capNumbered c.toCapNumber = some c := by
  cases c <;> rfl

/-! ## The credentials of a process -/

/-- What the kernel keeps of a process's credentials. -/
structure Cred where
  uidMap : IdMap
  gidMap : IdMap
  uids : Ids
  gids : Ids
  groups : List UInt32
  securebits : CInt
  caps : CapSets CapabilityBit

namespace Cred

/-- The kernel id is that of the namespace's root user. -/
def isRoot (c : Cred) (k : UInt32) : Bool := c.uidMap.toKernel 0 = some k

/-- Some of the ids is root's. -/
def anyRoot (c : Cred) (ids : Ids) : Bool :=
  c.isRoot ids.real || c.isRoot ids.effective || c.isRoot ids.saved

/-- A change of the user ids, with what it does to the capabilities. -/
def setUids (c : Cred) (ids : Ids) : Cred :=
  { c with
    uids := ids
    caps :=
      if hasBits c.securebits SECBIT_NO_SETUID_FIXUP then c.caps
      else c.caps.switchUids (c.anyRoot c.uids && !c.anyRoot ids)
        (hasBits c.securebits SECBIT_KEEP_CAPS) (c.isRoot c.uids.effective)
        (c.isRoot ids.effective) }

/-- `setuid(2)`. -/
def setuid (c : Cred) (k : UInt32) : Cred :=
  c.setUids (c.uids.set (.setuid ∈ c.caps.effective) k)

/-- `setgid(2)`. -/
def setgid (c : Cred) (k : UInt32) : Cred :=
  { c with gids := c.gids.set (.setgid ∈ c.caps.effective) k }

/-- Without the capability, an id may only be switched to the real or the saved one. -/
def maySet (m : IdMap) (ids : Ids) (privileged : Prop) (id : UInt32) : Prop :=
  match m.toKernel id with
  | some k => privileged ∨ k = ids.real ∨ k = ids.saved
  | none => False

/-- The id is looked up in the map, and compared with the process's own. -/
instance (m : IdMap) (ids : Ids) (privileged : Prop) [Decidable privileged] (id : UInt32) :
    Decidable (maySet m ids privileged id) := by
  unfold maySet
  cases m.toKernel id with
  | none => exact inferInstanceAs (Decidable False)
  | some k => exact inferInstanceAs (Decidable (_ ∨ _))

/-- The process may set its user id: it has the capability, or the id is one of its own. -/
def maySetuid (c : Cred) (uid : UInt32) : Prop :=
  maySet c.uidMap c.uids (.setuid ∈ c.caps.effective) uid

/-- The process may set its group id. -/
def maySetgid (c : Cred) (gid : UInt32) : Prop :=
  maySet c.gidMap c.gids (.setgid ∈ c.caps.effective) gid

/-- By the decision for ids. -/
instance (c : Cred) (uid : UInt32) : Decidable (c.maySetuid uid) :=
  inferInstanceAs (Decidable (maySet _ _ _ _))

/-- By the decision for ids. -/
instance (c : Cred) (gid : UInt32) : Decidable (c.maySetgid gid) :=
  inferInstanceAs (Decidable (maySet _ _ _ _))

/-- A locked bit keeps its value, and no lock is taken off. -/
def maySetSecurebits (c : Cred) (bits : CInt) : Prop :=
  .setpcap ∈ c.caps.effective ∧
    ((c.securebits &&& SECURE_ALL_LOCKS) >>> 1) &&& (c.securebits ^^^ bits) = 0 ∧
    c.securebits &&& SECURE_ALL_LOCKS &&& ~~~bits = 0 ∧
    bits &&& ~~~(SECURE_ALL_LOCKS ||| SECURE_ALL_BITS) = 0

/-- The sets that `capget(2)` reports. -/
def capData (c : Cred) : CapInternalData × CapInternalData :=
  capResultToData
    { effective := maskOf c.caps.effective
      permitted := maskOf c.caps.permitted
      inheritable := maskOf c.caps.inheritable }

/-- The credentials after a call and its answer. -/
def next (c : Cred) (call : Call) (a : call.Answer) : Cred :=
  match call, a with
  | .setuid uid, .ok () =>
    match c.uidMap.toKernel uid with
    | some k => c.setuid k
    | none => c
  | .setgid gid, .ok () =>
    match c.gidMap.toKernel gid with
    | some k => c.setgid k
    | none => c
  | .setgroups gids, .ok () => { c with groups := gids.filterMap c.gidMap.toKernel }
  | .prSetSecurebits bits, .ok () => { c with securebits := bits }
  | .prCapbsetDrop n, .ok () =>
    match capNumbered n with
    | some d => { c with caps := c.caps.dropBounding d }
    | none => c
  | .prCapAmbient op n, .ok () =>
    match op, capNumbered n with
    | .lower, some d => { c with caps := c.caps.lowerAmbient d }
    | .raise, some d => { c with caps := c.caps.raiseAmbient d }
    | _, none => c
  | .capset _ data, .ok () =>
    let r := capDataToResult data
    { c with
      caps := c.caps.capset (capsOf r.effective) (capsOf r.permitted) (capsOf r.inheritable) }
  | _, _ => c

/-- The answers Linux may give. -/
def allows (c : Cred) (call : Call) (a : call.Answer) : Prop :=
  match call, a with
  | .getuid, id => id = c.uidMap.report c.uids.real
  | .getgid, id => id = c.gidMap.report c.gids.real
  | .setuid uid, .ok () => c.maySetuid uid
  | .setgid gid, .ok () => c.maySetgid gid
  | .setgroups gids, .ok () =>
    .setgid ∈ c.caps.effective ∧ ∀ gid ∈ gids, (c.gidMap.toKernel gid).isSome
  | .prSetSecurebits bits, .ok () => c.maySetSecurebits bits
  | .prCapbsetDrop n, .ok () => .setpcap ∈ c.caps.effective ∧ (capNumbered n).isSome
  | .prCapAmbient .lower n, .ok () => (capNumbered n).isSome
  | .prCapAmbient .raise n, .ok () =>
    hasBits c.securebits SECBIT_NO_CAP_AMBIENT_RAISE = false ∧
      ∃ d ∈ capNumbered n, c.caps.MayRaise d
  | .capget _, .ok data => data = c.capData
  | .capset _ data, .ok () =>
    let r := capDataToResult data
    c.caps.MayCapset (.setpcap ∈ c.caps.effective) (capsOf r.effective) (capsOf r.permitted)
      (capsOf r.inheritable)
  | _, _ => True

end Cred

/-- The rules of Linux for credentials. -/
def credRules : LocalRules calls Cred where
  allows := Cred.allows
  next := Cred.next

/-- Linux, with the rules for a process whose credentials start as `c₀`. -/
def linuxCred (c₀ : Cred) : Kernel calls Int World := linux.withRules credRules c₀

variable {c₀ : Cred} {h : List Event}

/-- No rule mentions a call of another kind. -/
theorem Cred.next_of_kind (c : Cred) {call : Call} (a : call.Answer) (hk : call.kind ≠ .cred) :
    c.next call a = c := by
  unfold Cred.next
  split <;> first | rfl | exact absurd rfl hk

/-- A history without calls on the credentials leaves them as they are. -/
theorem cred_after_of_kind (c : Cred) (hh : ∀ e ∈ h, e.call.kind ≠ .cred) :
    credRules.after c h = c :=
  LocalRules.after_eq_of_forall fun e he t => t.next_of_kind e.answer (hh e he)

/-- The history of every process obeys the rules. -/
theorem cred_lawful {root pid : Int} {p q : Sys Unit} {s₀ : World}
    {cfg : Config calls Int World Err Unit} (hr : (linuxCred c₀).Reachable root p s₀ cfg)
    (hproc : cfg.procs pid = some ⟨h, q⟩) : credRules.Lawful c₀ h := by
  refine Reachable.lawful (fun call a r b hspawn c => ?_) hr hproc
  by_cases hf : call = .fork
  · subst hf
    trivial
  · rw [show linux.spawn call a = none from spawn_none a hf] at hspawn
    cases hspawn

/-! ## What the workload may do later -/

namespace Cred

/-- `execve(2)` of a file with the capabilities `file`, by which the effective user id becomes
    `euid`: the caller's, or that of the file's owner. Unless `SECBIT_NOROOT` is set, root has
    every capability of the file; a file with capabilities of its own that makes its caller
    root is left out of this rule. -/
def execve (c : Cred) (file : Option (FileCaps CapabilityBit)) (euid : UInt32) : Cred :=
  let root := !hasBits c.securebits SECBIT_NOROOT &&
    (c.isRoot euid || c.isRoot c.uids.real) &&
    !(file.isSome && c.isRoot euid && !c.isRoot c.uids.real)
  { c with
    uids := { c.uids with effective := euid, saved := euid }
    securebits := c.securebits &&& ~~~SECBIT_KEEP_CAPS
    caps := c.caps.exec file root
      (file.elim false FileCaps.effective || (root && c.isRoot euid)) (euid ≠ c.uids.real) }

/-- What a process may do with its capabilities without leaving its user namespace. -/
inductive Later (c : Cred) : Cred → Prop where
  | execve (file : Option (FileCaps CapabilityBit)) (euid : UInt32) : Later c (c.execve file euid)
  | capset {pid : Nat} {data : CapInternalData × CapInternalData}
      (hmay : c.allows (.capset pid data) (.ok ())) : Later c (c.next (.capset pid data) (.ok ()))
  | raiseAmbient {n : Nat} (hmay : c.allows (.prCapAmbient .raise n) (.ok ())) :
      Later c (c.next (.prCapAmbient .raise n) (.ok ()))
  | setUids (ids : Ids) : Later c (c.setUids ids)

/-- Each such step is one of the capability sets. -/
theorem Later.caps {c c' : Cred} (hs : c.Later c') : CapSets.Later c.caps c'.caps := by
  cases hs with
  | execve file euid => exact .exec file _ _ _
  | capset hmay => exact .capset hmay
  | raiseAmbient hmay =>
    obtain ⟨-, d, hd, hmay⟩ := hmay
    rw [Option.mem_def] at hd
    simpa [Cred.next, hd] using CapSets.Later.raiseAmbient hmay
  | setUids ids =>
    show CapSets.Later c.caps (if _ then _ else _)
    split
    · exact .keepUids
    · exact .switchUids _ _ _ _

/-- What a process does with its capabilities leaves `SECBIT_NO_SETUID_FIXUP` alone. -/
theorem Later.noSetuidFixup {c c' : Cred} (hs : c.Later c')
    (hc : hasBits c.securebits SECBIT_NO_SETUID_FIXUP) :
    hasBits c'.securebits SECBIT_NO_SETUID_FIXUP := by
  -- A step of the workload's life: only `execve` touches the bits, and it keeps this one
  cases hs with
  | execve file euid =>
    show hasBits (c.securebits &&& ~~~SECBIT_KEEP_CAPS) SECBIT_NO_SETUID_FIXUP = true
    rw [hasBits, beq_iff_eq] at hc ⊢
    rw [BitVec.and_assoc, BitVec.and_comm (~~~_), ← BitVec.and_assoc, hc]
    rfl
  | capset _ => exact hc
  | raiseAmbient _ =>
    have hkeep : ∀ n, (c.next (.prCapAmbient .raise n) (.ok ())).securebits = c.securebits := by
      intro n
      cases hn : capNumbered n <;> simp [Cred.next, hn]
    rwa [hkeep]
  | setUids ids => exact hc

/-- With `SECBIT_NO_SETUID_FIXUP` a change of user ids leaves the capabilities alone. -/
theorem setUids_caps {c : Cred} (hc : hasBits c.securebits SECBIT_NO_SETUID_FIXUP) (ids : Ids) :
    (c.setUids ids).caps = c.caps := if_pos hc

end Cred

/-! ## Answers that obey the rules -/

/-- Both bounds are decided. -/
instance (c : Cred) (bits : CInt) : Decidable (c.maySetSecurebits bits) :=
  inferInstanceAs (Decidable (_ ∧ _))

/-- Each of the calls is decided by what it asks for. -/
instance (c : Cred) (call : Call) (a : call.Answer) : Decidable (c.allows call a) := by
  induction call using Call.casesOn with
  | getuid => exact (inferInstance : Decidable (a = c.uidMap.report c.uids.real))
  | getgid => exact (inferInstance : Decidable (a = c.gidMap.report c.gids.real))
  | setuid uid =>
    exact match a with
    | .error _ => isTrue trivial
    | .ok () => (inferInstance : Decidable (c.maySetuid uid))
  | setgid gid =>
    exact match a with
    | .error _ => isTrue trivial
    | .ok () => (inferInstance : Decidable (c.maySetgid gid))
  | setgroups gids =>
    exact match a with
    | .error _ => isTrue trivial
    | .ok () => @instDecidableAnd _ _ _ (List.decidableBAll _ gids)
  | prSetSecurebits bits =>
    exact match a with
    | .error _ => isTrue trivial
    | .ok () => (inferInstance : Decidable (c.maySetSecurebits bits))
  | prCapbsetDrop n =>
    exact match a with
    | .error _ => isTrue trivial
    | .ok () => (inferInstance : Decidable (.setpcap ∈ c.caps.effective ∧ (capNumbered n).isSome))
  | prCapAmbient op n =>
    exact match op, a with
    | .lower, .ok () => (inferInstance : Decidable ((capNumbered n).isSome = true))
    | .raise, .ok () => (inferInstance : Decidable
        (hasBits c.securebits SECBIT_NO_CAP_AMBIENT_RAISE = false ∧
          ∃ d ∈ capNumbered n, c.caps.MayRaise d))
    | .lower, .error _ => isTrue trivial
    | .raise, .error _ => isTrue trivial
  | capget pid =>
    exact match a with
    | .error _ => isTrue trivial
    | .ok data => (inferInstance : Decidable (data = c.capData))
  | capset pid data =>
    exact match a with
    | .error _ => isTrue trivial
    | .ok () => (inferInstance : Decidable (c.caps.MayCapset (.setpcap ∈ c.caps.effective)
        (capsOf (capDataToResult data).effective) (capsOf (capDataToResult data).permitted)
        (capsOf (capDataToResult data).inheritable)))
  | _ => exact isTrue trivial

/-- The rules are those of the credentials. -/
instance (c : Cred) (call : Call) (a : call.Answer) : Decidable (credRules.allows c call a) :=
  inferInstanceAs (Decidable (c.allows call a))

/-- The answer to a call that may not succeed. -/
def Cred.refusal (c : Cred) (call : Call) : call.Answer :=
  match call with
  | .getuid => c.uidMap.report c.uids.real
  | .getgid => c.gidMap.report c.gids.real
  | .capget _ => .ok c.capData
  | .setuid _ => .error Errno.EPERM
  | .setgid _ => .error Errno.EPERM
  | .setgroups _ => .error Errno.EPERM
  | .prSetSecurebits _ => .error Errno.EPERM
  | .prCapbsetDrop _ => .error Errno.EPERM
  | .prCapAmbient _ _ => .error Errno.EPERM
  | .capset _ _ => .error Errno.EPERM
  | call => call.success

/-- Every call succeeds that the rules allow to. -/
def credAnswers (c₀ : Cred) : calls.Answers :=
  credRules.obeying c₀ Call.success Cred.refusal

/-- The answers made for a state are allowed in it. -/
theorem credAnswers_allowed (c₀ : Cred) (h : List Event) (call : Call) :
    credRules.allows (credRules.after c₀ h) call (credAnswers c₀ h call) := by
  refine LocalRules.allows_obeying (fun c call hno => ?_) h call
  revert hno
  show ¬ c.allows call call.success → c.allows call (c.refusal call)
  cases call with
  | prCapAmbient op n => cases op <;> exact fun _ => trivial
  | _ => first | exact fun _ => rfl | exact fun _ => trivial

/-- A run under these answers is one of Linux with the rules. -/
theorem linuxCred_of_under {root : Int} {p : Sys Unit} {s₀ : World}
    {cfg : Config calls Int World Err Unit}
    (hr : (linux.under (credAnswers c₀)).Reachable root p s₀ cfg) :
    (linuxCred c₀).Reachable root p s₀ cfg :=
  Reachable.withRules_of_under (credAnswers_allowed c₀) hr

/-- The root user of the initial user namespace, with every capability. -/
def Cred.root : Cred where
  uidMap := .initial
  gidMap := .initial
  uids := .all 0
  gids := .all 0
  groups := []
  securebits := 0
  caps :=
    { permitted := CapabilityBit.all.toFinset
      effective := CapabilityBit.all.toFinset
      inheritable := ∅
      ambient := ∅
      bounding := CapabilityBit.all.toFinset }

end Styrolite
