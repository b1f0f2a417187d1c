import Styrolite.Native.Config
import Mathlib.Data.Finset.Dedup

/-!
# Capability bits

The part of `caps.rs` that makes no system call: the capability numbers and
names, the 64-bit masks, and the split of a mask into the two 32-bit words of
`capget(2)` and `capset(2)`. `Capabilities.namesAsSet` is the set that
`names_as_bits` collects before it reads the set back out in hash order.
-/

namespace Styrolite

/-- The capabilities that the program knows. -/
inductive CapabilityBit where
  | chown | dacOverride | dacReadSearch | fowner | fsetid | kill | setgid | setuid
  | setpcap | linuxImmutable | netBindService | netBroadcast | netAdmin | netRaw
  | ipcLock | ipcOwner | sysModule | sysRawIO | sysChroot | sysPtrace | sysPacct
  | sysAdmin | sysBoot | sysNice | sysResource | sysTime | sysTtyConfig | mknod
  | lease | auditWrite | auditControl | setfcap | macOverride | macAdmin | syslog
  | wakeAlarm | blockSuspend | auditRead | perfmon | bpf | checkpointRestore
  deriving DecidableEq, Repr

namespace CapabilityBit

/-- `ALL`, in the order of the capability numbers. -/
def all : List CapabilityBit :=
  [chown, dacOverride, dacReadSearch, fowner, fsetid, kill, setgid, setuid,
   setpcap, linuxImmutable, netBindService, netBroadcast, netAdmin, netRaw,
   ipcLock, ipcOwner, sysModule, sysRawIO, sysChroot, sysPtrace, sysPacct,
   sysAdmin, sysBoot, sysNice, sysResource, sysTime, sysTtyConfig, mknod,
   lease, auditWrite, auditControl, setfcap, macOverride, macAdmin, syslog,
   wakeAlarm, blockSuspend, auditRead, perfmon, bpf, checkpointRestore]

/-- The discriminants run from 0 in declaration order. -/
def toCapNumber (c : CapabilityBit) : Nat := c.ctorIdx

/-- The capability's bit in a mask. -/
def bitMask (c : CapabilityBit) : U64 := 1#64 <<< c.toCapNumber

/-- The mask with the bit set. -/
def addTo (c : CapabilityBit) (value : U64) : U64 := value ||| c.bitMask

/-- The mask with the bit cleared. -/
def removeFrom (c : CapabilityBit) (value : U64) : U64 := value &&& ~~~c.bitMask

/-- Whether the mask has the bit. -/
def getFrom (c : CapabilityBit) (value : U64) : Bool := value &&& c.bitMask == c.bitMask

/-- The capabilities in a mask. -/
def parseBits (value : U64) : List CapabilityBit := all.filter (·.getFrom value)

/-- The mask with the bits set, one after the other. -/
def setBits (value : U64) (bits : List CapabilityBit) : U64 :=
  bits.foldl (fun value bit => bit.addTo value) value

/-- The mask with the bits cleared, one after the other. -/
def clearBits (value : U64) (bits : List CapabilityBit) : U64 :=
  bits.foldl (fun value bit => bit.removeFrom value) value

/-- The mask of a list. -/
def rawBits (bits : List CapabilityBit) : U64 := setBits 0 bits

/-- The list of all capabilities is complete. -/
theorem mem_all (c : CapabilityBit) : c ∈ all := by
  cases c <;> decide

/-- There are 41 capabilities. -/
theorem toCapNumber_lt (c : CapabilityBit) : c.toCapNumber < 41 := by
  cases c <;> decide

/-- Capabilities have different numbers. -/
theorem toCapNumber_inj {c d : CapabilityBit} : c.toCapNumber = d.toCapNumber ↔ c = d := by
  constructor
  · intro h
    have hall : ∀ c ∈ all, all[c.toCapNumber]? = some c := by decide
    have hc := hall c (mem_all c)
    rw [h, hall d (mem_all d)] at hc
    exact (Option.some.inj hc).symm
  · rintro rfl
    rfl

/-! ## Bits of the masks -/

/-- The bits of a mask of one capability. -/
theorem getLsbD_bitMask (c : CapabilityBit) (i : Nat) :
    c.bitMask.getLsbD i = decide (i = c.toCapNumber) := by
  have hlt := c.toCapNumber_lt
  rw [bitMask, BitVec.getLsbD_shiftLeft]
  -- Below the number, at it, and above it
  rcases Nat.lt_trichotomy i c.toCapNumber with h | h | h
  · simp [h, Nat.ne_of_lt h]
  · subst h
    simp only [Nat.lt_irrefl, decide_false, Bool.not_false, Nat.sub_self, decide_true]
    simp only [show c.toCapNumber < 64 by omega, decide_true, Bool.true_and, Bool.and_true]
    decide
  · have : (1#64).getLsbD (i - c.toCapNumber) = false := by
      rw [BitVec.getLsbD_one]
      simp; omega
    simp [this, Nat.ne_of_gt h]

/-- Setting a bit changes that bit. -/
@[simp] theorem getLsbD_addTo (c : CapabilityBit) (value : U64) (i : Nat) :
    (c.addTo value).getLsbD i = (value.getLsbD i || decide (i = c.toCapNumber)) := by
  rw [addTo, BitVec.getLsbD_or, getLsbD_bitMask]

/-- Clearing a bit changes that bit. -/
@[simp] theorem getLsbD_removeFrom (c : CapabilityBit) (value : U64) (i : Nat) :
    (c.removeFrom value).getLsbD i = (value.getLsbD i && !decide (i = c.toCapNumber)) := by
  rw [removeFrom, BitVec.getLsbD_and, BitVec.getLsbD_not, getLsbD_bitMask]
  by_cases hi : i < 64
  · simp [hi]
  · simp [BitVec.getLsbD_of_ge value i (by omega)]

/-- A bit after `set_bits`: it was set or is the number of a listed capability. -/
theorem getLsbD_setBits (value : U64) (bits : List CapabilityBit) (i : Nat) :
    (setBits value bits).getLsbD i =
      (value.getLsbD i || bits.any fun c => decide (i = c.toCapNumber)) := by
  induction bits generalizing value with
  | nil => simp [setBits]
  | cons c bits ih =>
    have : setBits value (c :: bits) = setBits (c.addTo value) bits := rfl
    rw [this, ih, getLsbD_addTo, List.any_cons, Bool.or_assoc]

/-- A bit after `clear_bits`: it was set and is not the number of a listed capability. -/
theorem getLsbD_clearBits (value : U64) (bits : List CapabilityBit) (i : Nat) :
    (clearBits value bits).getLsbD i =
      (value.getLsbD i && !bits.any fun c => decide (i = c.toCapNumber)) := by
  induction bits generalizing value with
  | nil => simp [clearBits]
  | cons c bits ih =>
    have : clearBits value (c :: bits) = clearBits (c.removeFrom value) bits := rfl
    rw [this, ih, getLsbD_removeFrom, List.any_cons, Bool.not_or, Bool.and_assoc]

/-- Whether the mask holds the capability. -/
def inMask (c : CapabilityBit) (value : U64) : Prop := value.getLsbD c.toCapNumber = true

/-- A bit is tested. -/
instance (c : CapabilityBit) (value : U64) : Decidable (c.inMask value) :=
  inferInstanceAs (Decidable (_ = true))

/-- The capabilities in a mask with a list set. -/
theorem inMask_setBits (c : CapabilityBit) (value : U64) (bits : List CapabilityBit) :
    c.inMask (setBits value bits) ↔ c.inMask value ∨ c ∈ bits := by
  rw [inMask, getLsbD_setBits, Bool.or_eq_true, List.any_eq_true]
  simp [inMask, toCapNumber_inj]

/-- The capabilities in a mask with a list cleared. -/
theorem inMask_clearBits (c : CapabilityBit) (value : U64) (bits : List CapabilityBit) :
    c.inMask (clearBits value bits) ↔ c.inMask value ∧ c ∉ bits := by
  rw [inMask, getLsbD_clearBits, Bool.and_eq_true, Bool.not_eq_true', List.any_eq_false]
  constructor
  · rintro ⟨hv, hb⟩
    exact ⟨hv, fun hc => by simpa using hb c hc⟩
  · rintro ⟨hv, hb⟩
    refine ⟨hv, fun d hd => ?_⟩
    rw [decide_eq_true_eq, toCapNumber_inj]
    rintro rfl
    exact hb hd

/-! ## Names -/

/-- `AsRef<str>`: the canonical name, without `CAP_`. -/
def asRef : CapabilityBit → String
  | chown => "CHOWN"
  | dacOverride => "DAC_OVERRIDE"
  | dacReadSearch => "DAC_READ_SEARCH"
  | fowner => "FOWNER"
  | fsetid => "FSETID"
  | kill => "KILL"
  | setgid => "SETGID"
  | setuid => "SETUID"
  | setpcap => "SETPCAP"
  | linuxImmutable => "LINUX_IMMUTABLE"
  | netBindService => "NET_BIND_SERVICE"
  | netBroadcast => "NET_BROADCAST"
  | netAdmin => "NET_ADMIN"
  | netRaw => "NET_RAW"
  | ipcLock => "IPC_LOCK"
  | ipcOwner => "IPC_OWNER"
  | sysModule => "SYS_MODULE"
  | sysRawIO => "SYS_RAW_IO"
  | sysChroot => "SYS_CHROOT"
  | sysPtrace => "SYS_PTRACE"
  | sysPacct => "SYS_PACCT"
  | sysAdmin => "SYS_ADMIN"
  | sysBoot => "SYS_BOOT"
  | sysNice => "SYS_NICE"
  | sysResource => "SYS_RESOURCE"
  | sysTime => "SYS_TIME"
  | sysTtyConfig => "SYS_TTY_CONFIG"
  | mknod => "MKNOD"
  | lease => "LEASE"
  | auditWrite => "AUDIT_WRITE"
  | auditControl => "AUDIT_CONTROL"
  | setfcap => "SETFCAP"
  | macOverride => "MAC_OVERRIDE"
  | macAdmin => "MAC_ADMIN"
  | syslog => "SYSLOG"
  | wakeAlarm => "WAKE_ALARM"
  | blockSuspend => "BLOCK_SUSPEND"
  | auditRead => "AUDIT_READ"
  | perfmon => "PERFMON"
  | bpf => "BPF"
  | checkpointRestore => "CHECKPOINT_RESTORE"

end CapabilityBit

/-- `char::is_whitespace`, the Unicode property `White_Space`. -/
def isWhitespace (c : Char) : Bool :=
  let n := c.toNat
  (9 ≤ n && n ≤ 13) || n == 0x20 || n == 0x85 || n == 0xA0 || n == 0x1680 ||
    (0x2000 ≤ n && n ≤ 0x200A) || n == 0x2028 || n == 0x2029 || n == 0x202F ||
    n == 0x205F || n == 0x3000

/-- `str::trim`. -/
def trim (cs : List Char) : List Char :=
  ((cs.dropWhile isWhitespace).reverse.dropWhile isWhitespace).reverse

/-- `char::to_uppercase`, exact on every character whose upper case is ASCII. The upper case
    of any other character has a character outside ASCII, and is compared with ASCII text
    only: the model leaves such a character as it is. -/
def toUppercaseChar (c : Char) : List Char :=
  if c.isLower then [c.toUpper]
  else match c.toNat with
    | 0x00DF => ['S', 'S']
    | 0x0131 => ['I']
    | 0x017F => ['S']
    | 0xFB00 => ['F', 'F']
    | 0xFB01 => ['F', 'I']
    | 0xFB02 => ['F', 'L']
    | 0xFB03 => ['F', 'F', 'I']
    | 0xFB04 => ['F', 'F', 'L']
    | 0xFB05 => ['S', 'T']
    | 0xFB06 => ['S', 'T']
    | _ => [c]

/-- `str::to_uppercase`. -/
def toUppercase (cs : List Char) : List Char := cs.flatMap toUppercaseChar

/-- `CapabilityBit::from_str`. -/
def CapabilityBit.fromStr (s : String) : Except Err CapabilityBit :=
  let cs := s.toList
  let input :=
    if ['C', 'A', 'P', '_'] <+: cs ∧ s.utf8ByteSize > 4 then cs.drop 4 else trim cs
  let refined := trim (toUppercase input)
  match CapabilityBit.all.find? fun capability => refined = capability.asRef.toList with
  | some capability => .ok capability
  | none => .error (.msg ("unknown capability: '" ++ s ++ "'"))

/-- The set `names_as_bits` has collected after its loop over `names`. -/
def Capabilities.namesAsSet : List String → Except Err (Finset CapabilityBit)
  | names => names.foldlM (fun caps name =>
      match CapabilityBit.fromStr name with
      | .ok bit => .ok (insert bit caps)
      | .error _ =>
        if toUppercase name.toList = ['A', 'L', 'L'] then
          .ok (caps ∪ CapabilityBit.all.toFinset)
        else .error (.msg ("unknown capability: " ++ name))) ∅

/-! ## The words of `capget(2)` and `capset(2)` -/

/-- One of the two words in which the kernel passes each set. -/
structure CapInternalData where
  effective : BitVec 32
  permitted : BitVec 32
  inheritable : BitVec 32
  deriving DecidableEq, Repr

/-- The three sets of a process, each in one mask. -/
structure CapResult where
  effective : U64
  permitted : U64
  inheritable : U64
  deriving DecidableEq, Repr

/-- `((hi as u64) << 32) | lo as u64`. -/
def wordsToMask (hi lo : BitVec 32) : U64 := (hi.setWidth 64 <<< 32) ||| lo.setWidth 64

/-- The two words of each set, put together. -/
def capDataToResult (data : CapInternalData × CapInternalData) : CapResult where
  effective := wordsToMask data.2.effective data.1.effective
  permitted := wordsToMask data.2.permitted data.1.permitted
  inheritable := wordsToMask data.2.inheritable data.1.inheritable

/-- Each set, cut into two words. -/
def capResultToData (caps : CapResult) : CapInternalData × CapInternalData :=
  ({ effective := caps.effective.setWidth 32
     permitted := caps.permitted.setWidth 32
     inheritable := caps.inheritable.setWidth 32 },
   { effective := (caps.effective >>> 32).setWidth 32
     permitted := (caps.permitted >>> 32).setWidth 32
     inheritable := (caps.inheritable >>> 32).setWidth 32 })

/-- A mask that is cut in two is whole when put together. -/
@[simp] theorem wordsToMask_split (m : U64) :
    wordsToMask ((m >>> 32).setWidth 32) (m.setWidth 32) = m := by
  apply BitVec.eq_of_getLsbD_eq
  intro i hi
  simp only [wordsToMask, BitVec.getLsbD_or, BitVec.getLsbD_shiftLeft, BitVec.getLsbD_setWidth,
    BitVec.getLsbD_ushiftRight]
  by_cases h : i < 32
  · simp [h, hi]
  · have : 32 + (i - 32) = i := by omega
    simp [h, hi, this, show i - 32 < 64 by omega, show i - 32 < 32 by omega]

/-- What `set_caps` hands to the kernel is read back unchanged. -/
@[simp] theorem capDataToResult_capResultToData (caps : CapResult) :
    capDataToResult (capResultToData caps) = caps := by
  simp [capDataToResult, capResultToData]

end Styrolite
