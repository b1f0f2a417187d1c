import Styrolite.ForStd.Decimal
import Styrolite.ForStd.Fields
import Styrolite.Native.Capability
import Styrolite.Native.Create

/-!
# Rendered id maps

`render_uidgid_mappings` writes what `uid_map` and `gid_map` are read as: one
non-empty line for each mapping, with three numbers between white space
(`readIdMap_render`).
-/

namespace Styrolite

open Fields

/-- A decimal number of 32 bits. -/
def readU32 (cs : List Char) : Option UInt32 :=
  (Decimal.read cs).bind fun n => if n < UInt32.size then some (UInt32.ofNat n) else none

/-- The words of a line. -/
def words (line : List Char) : List (List Char) := (line.splitOnP isWhitespace).filter (· ≠ [])

/-- The first id inside, the first id outside and the count. -/
def readIdLine (line : List Char) : Option IdMapping :=
  match (words line).mapM readU32 with
  | some [inside, outside, count] =>
    some { baseNsid := inside, baseHostid := outside, remapCount := count }
  | _ => none

/-- What the text of an id map is read as. -/
def readIdMap (text : String) : Option (List IdMapping) :=
  (fields '\n' text.toList).mapM readIdLine

theorem readU32_toString (n : UInt32) : readU32 (toString n).toList = some n := by
  have hlt : n.toNat < UInt32.size := n.toNat_lt
  show readU32 (toString n.toNat).toList = some n
  rw [readU32, Decimal.read_toString, Option.bind_some, if_pos hlt, UInt32.ofNat_toNat]

/-- A digit is no white space. -/
theorem isWhitespace_of_mem_toString {n : Nat} {c : Char} (hc : c ∈ (toString n).toList) :
    isWhitespace c = false := by
  have hdigit := Decimal.isDigit_of_mem_toString hc
  rw [Char.isDigit, Bool.and_eq_true, decide_eq_true_iff, decide_eq_true_iff] at hdigit
  have hlo : 48 ≤ c.toNat := hdigit.1
  have hhi : c.toNat ≤ 57 := hdigit.2
  unfold isWhitespace
  simp
  omega

theorem words_of_noSpace {cs : List Char} (hne : cs ≠ []) (hcs : ∀ c ∈ cs, isWhitespace c = false) :
    words cs = [cs] := by
  rw [words, List.splitOnP_eq_singleton hcs, List.filter_cons_of_pos (by simpa using hne),
    List.filter_nil]

theorem words_append_space (cs ds : List Char) : words (cs ++ ' ' :: ds) = words cs ++ words ds := by
  rw [words, List.splitOnP_append_cons cs ds (by decide), List.filter_append]
  rfl

/-- The line of one mapping. -/
def renderLine (m : IdMapping) : String :=
  toString m.baseNsid ++ " " ++ toString m.baseHostid ++ " " ++ toString m.remapCount

theorem words_toString (n : UInt32) : words (toString n).toList = [(toString n).toList] :=
  words_of_noSpace (Decimal.toString_ne_nil n.toNat) fun _ hc =>
    isWhitespace_of_mem_toString (n := n.toNat) hc

theorem toList_renderLine (m : IdMapping) : (renderLine m).toList = (toString m.baseNsid).toList ++
    ' ' :: ((toString m.baseHostid).toList ++ ' ' :: (toString m.remapCount).toList) := by
  simp [renderLine]

theorem readIdLine_render (m : IdMapping) : readIdLine (renderLine m).toList = some m := by
  rw [readIdLine, toList_renderLine, words_append_space, words_append_space, words_toString, words_toString,
    words_toString]
  simp [readU32_toString]

theorem renderUidgidMappings_eq (ms : List IdMapping) :
    renderUidgidMappings ms = String.intercalate "\n" (ms.map renderLine) := rfl

/-- A line has a digit in it, and no line feed. -/
theorem renderLine_isLine (m : IdMapping) :
    (renderLine m).toList ≠ [] ∧ '\n' ∉ (renderLine m).toList := by
  have hdigits : ∀ n : UInt32, '\n' ∉ (toString n).toList := fun n hn =>
    absurd (Decimal.isDigit_of_mem_toString (n := n.toNat) hn) (by decide)
  rw [toList_renderLine]
  refine ⟨by simp, ?_⟩
  simp [hdigits]

theorem fields_render (ms : List IdMapping) :
    fields '\n' (renderUidgidMappings ms).toList = ms.map fun m => (renderLine m).toList := by
  have hlines : ∀ l ∈ ms.map (fun m => (renderLine m).toList), l ≠ [] ∧ '\n' ∉ l := by
    intro l hl
    obtain ⟨m, -, rfl⟩ := List.mem_map.1 hl
    exact renderLine_isLine m
  rw [renderUidgidMappings_eq, String.toList_intercalate, List.map_map]
  exact fields_intercalate hlines

/-- The text of the mappings is read as these. -/
theorem readIdMap_render (ms : List IdMapping) :
    readIdMap (renderUidgidMappings ms) = some ms := by
  rw [readIdMap, fields_render]
  induction ms with
  | nil => rfl
  | cons m ms ih => simp [readIdLine_render, ih]

/-- Reading an id map back gives the mappings, so that different lists are rendered differently. -/
theorem renderUidgidMappings_faithful :
    (∀ ms, readIdMap (renderUidgidMappings ms) = some ms) ∧
      ∀ ms ms', renderUidgidMappings ms = renderUidgidMappings ms' → ms = ms' := by
  refine ⟨readIdMap_render, fun ms ms' heq => ?_⟩
  have hread := congrArg readIdMap heq
  rw [readIdMap_render, readIdMap_render] at hread
  exact Option.some.inj hread

end Styrolite
