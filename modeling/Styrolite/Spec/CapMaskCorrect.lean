import Styrolite.Native.Capability

/-!
# Capability lists and masks

Each capability has a number of its own, below 41, and `ALL` lists the capabilities
in the order of these numbers. So a mask and a list of capabilities stand for each
other, as far as the mask has no bit from 41 on and the list is in that order and
without repetitions; and a mask is in full in its two words.

## Key results

- `mem_parseBits`, `inMask_rawBits`: what a mask and a list stand for
- `masks_faithful`: the conversions there and back
-/

namespace Styrolite

namespace CapabilityBit

theorem nodup_all : all.Nodup := by decide

/-- The numbers run through `ALL`. -/
theorem map_toCapNumber_all : all.map toCapNumber = List.range 41 := by decide

/-- Every number below 41 is that of a capability. -/
theorem exists_toCapNumber {i : Nat} (hi : i < 41) : ∃ c : CapabilityBit, c.toCapNumber = i := by
  have hmem : i ∈ all.map toCapNumber := by rwa [map_toCapNumber_all, List.mem_range]
  obtain ⟨c, -, hc⟩ := List.mem_map.1 hmem
  exact ⟨c, hc⟩

theorem getFrom_iff (c : CapabilityBit) (value : U64) : c.getFrom value = true ↔ c.inMask value := by
  rw [getFrom, beq_iff_eq]
  constructor
  · intro heq
    have hbit := congrArg (fun m : U64 => m.getLsbD c.toCapNumber) heq
    simpa [inMask, getLsbD_bitMask] using hbit
  · intro hin
    apply BitVec.eq_of_getLsbD_eq
    intro i _
    rw [BitVec.getLsbD_and, getLsbD_bitMask]
    by_cases hic : i = c.toCapNumber
    · subst hic
      simpa using show value.getLsbD c.toCapNumber = true from hin
    · simp [hic]

@[simp] theorem mem_parseBits {c : CapabilityBit} {value : U64} :
    c ∈ parseBits value ↔ c.inMask value := by
  rw [parseBits, List.mem_filter, getFrom_iff, and_iff_right c.mem_all]

@[simp] theorem inMask_rawBits {c : CapabilityBit} {bits : List CapabilityBit} :
    c.inMask (rawBits bits) ↔ c ∈ bits := by
  rw [rawBits, inMask_setBits]
  simp [inMask]

/-- `ALL` without the capabilities that are not in the mask. -/
theorem parseBits_sublist (value : U64) : (parseBits value).Sublist all := List.filter_sublist

theorem nodup_parseBits (value : U64) : (parseBits value).Nodup :=
  nodup_all.sublist (parseBits_sublist value)

/-- A mask has a bit of the list's mask if it is the number of a capability in the list. -/
theorem getLsbD_rawBits (bits : List CapabilityBit) (i : Nat) :
    (rawBits bits).getLsbD i = true ↔ ∃ c ∈ bits, c.toCapNumber = i := by
  have hzero : (0 : U64).getLsbD i = false := BitVec.getLsbD_zero
  rw [rawBits, getLsbD_setBits, hzero, Bool.false_or, List.any_eq_true]
  simp only [decide_eq_true_eq, eq_comm (a := i)]

/-- Bits that stand for no capability are lost, and no others. -/
theorem rawBits_parseBits (value : U64) :
    rawBits (parseBits value) = (value.setWidth 41).setWidth 64 := by
  apply BitVec.eq_of_getLsbD_eq
  intro i hi
  rw [Bool.eq_iff_iff, getLsbD_rawBits, BitVec.getLsbD_setWidth, BitVec.getLsbD_setWidth]
  simp only [mem_parseBits, inMask, hi, decide_true, Bool.true_and, Bool.and_eq_true,
    decide_eq_true_eq]
  constructor
  · rintro ⟨c, hin, rfl⟩
    exact ⟨c.toCapNumber_lt, hin⟩
  · rintro ⟨hlt, hbit⟩
    obtain ⟨c, rfl⟩ := exists_toCapNumber hlt
    exact ⟨c, hbit, rfl⟩

end CapabilityBit

/-! ## Words -/

theorem wordsToMask_low (hi lo : BitVec 32) : (wordsToMask hi lo).setWidth 32 = lo := by
  apply BitVec.eq_of_getLsbD_eq
  intro i h
  simp only [wordsToMask, BitVec.getLsbD_setWidth, BitVec.getLsbD_or, BitVec.getLsbD_shiftLeft]
  simp [h, show i < 64 by omega]

theorem wordsToMask_high (hi lo : BitVec 32) : (wordsToMask hi lo >>> 32).setWidth 32 = hi := by
  apply BitVec.eq_of_getLsbD_eq
  intro i h
  simp only [wordsToMask, BitVec.getLsbD_setWidth, BitVec.getLsbD_ushiftRight, BitVec.getLsbD_or,
    BitVec.getLsbD_shiftLeft]
  simp [h, show 32 + i < 64 by omega, show i < 64 by omega, show ¬ 32 + i < 32 by omega]

/-- What the kernel hands to `get_caps` is what `set_caps` would hand back. -/
@[simp] theorem capResultToData_capDataToResult (data : CapInternalData × CapInternalData) :
    capResultToData (capDataToResult data) = data := by
  simp [capDataToResult, capResultToData, wordsToMask_low, wordsToMask_high]

/-- A mask comes back without the bits from 41 on, and a list as its members in the order of `ALL`;
    the sets and their words are two forms of the same. -/
theorem masks_faithful :
    (∀ value : U64, CapabilityBit.rawBits (CapabilityBit.parseBits value) =
      (value.setWidth 41).setWidth 64) ∧
    (∀ bits : List CapabilityBit,
      (CapabilityBit.parseBits (CapabilityBit.rawBits bits)).Sublist CapabilityBit.all ∧
      (CapabilityBit.parseBits (CapabilityBit.rawBits bits)).Nodup ∧
      ∀ c, c ∈ CapabilityBit.parseBits (CapabilityBit.rawBits bits) ↔ c ∈ bits) ∧
    (∀ caps, capDataToResult (capResultToData caps) = caps) ∧
    ∀ data, capResultToData (capDataToResult data) = data := by
  refine ⟨CapabilityBit.rawBits_parseBits, fun bits => ⟨?_, ?_, fun c => ?_⟩,
    capDataToResult_capResultToData, capResultToData_capDataToResult⟩
  · exact CapabilityBit.parseBits_sublist _
  · exact CapabilityBit.nodup_parseBits _
  · rw [CapabilityBit.mem_parseBits, CapabilityBit.inMask_rawBits]

end Styrolite
