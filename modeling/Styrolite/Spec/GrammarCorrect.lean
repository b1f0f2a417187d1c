import Mathlib.Data.List.DropRight
import Mathlib.Data.Set.Insert
import Styrolite.Native.Caps

/-!
# The grammar of capability names

A name is a canonical one in any case, with or without `CAP_`, and with white
space around it. `from_str` looks for `CAP_` before it trims and takes the case
away, `names_as_bits` looks for `ALL` in what has not been trimmed, and
`to_uppercase` makes ASCII letters of some that are not. So there are names that
are refused and spellings that are accepted (`Irregular`), and on all others the
grammar is the one above (`uniformOn_iff`).
-/

namespace Styrolite

open Prog

/-! ## The grammar -/

/-- The letters in upper case, where only ASCII letters have one. -/
def asciiUpper (cs : List Char) : List Char := cs.map Char.toUpper

/-- The string is the name of the capability: trimmed, in any case, with or without `CAP_`. -/
def CapabilityBit.Denotes (s : String) (c : CapabilityBit) : Prop :=
  asciiUpper (trim s.toList) = c.asRef.toList ∨
    asciiUpper (trim s.toList) = ['C', 'A', 'P', '_'] ++ c.asRef.toList

/-- Both ways of writing the name are decided. -/
instance (s : String) (c : CapabilityBit) : Decidable (c.Denotes s) :=
  inferInstanceAs (Decidable (_ ∨ _))

/-- The string is the name of every capability. -/
def DenotesAll (s : String) : Prop := asciiUpper (trim s.toList) = ['A', 'L', 'L']

/-- The grammar is that of `from_str` and `names_as_bits` on the strings of a set. -/
structure UniformOn (S : Set String) : Prop where
  name : ∀ s ∈ S, ∀ c, CapabilityBit.fromStr s = .ok c ↔ c.Denotes s
  list : ∀ names : List String, (∀ s ∈ names, s ∈ S) →
    ((∃ h caps, (Capabilities.namesAsBits names).Runs h (.ok caps)) ↔
      ∀ s ∈ names, (∃ c, CapabilityBit.Denotes s c) ∨ DenotesAll s)
  /-- White space around a name and its case do not matter. -/
  spelling : ∀ s ∈ S, ∀ t ∈ S, asciiUpper (trim s.toList) = asciiUpper (trim t.toList) →
    ∀ c, CapabilityBit.fromStr s = .ok c ↔ CapabilityBit.fromStr t = .ok c

/-- Where the code leaves the grammar. -/
inductive Irregular (s : String) : Prop where
  /-- `CAP_` is in lower case, or behind white space. -/
  | front (c : CapabilityBit)
    (hname : asciiUpper (trim s.toList) = ['C', 'A', 'P', '_'] ++ c.asRef.toList)
    (hfront : ¬ ['C', 'A', 'P', '_'] <+: s.toList)
  /-- There is white space between `CAP_` and the name. -/
  | gap (c : CapabilityBit) (w : Char) (cs : List Char)
    (hs : s.toList = ['C', 'A', 'P', '_'] ++ w :: cs) (hspace : isWhitespace w = true)
    (hname : toUppercase (trim cs) = c.asRef.toList)
  /-- The name has a letter that is not ASCII, but is in upper case. -/
  | letters (c : CapabilityBit) (ch : Char) (hch : ch ∈ trim s.toList) (hascii : 128 ≤ ch.toNat)
    (hname : toUppercase (trim s.toList) = c.asRef.toList ∨
      toUppercase (trim s.toList) = ['C', 'A', 'P', '_'] ++ c.asRef.toList ∧
        ['C', 'A', 'P', '_'] <+: s.toList)
  /-- There is white space around `ALL`. -/
  | all (hname : DenotesAll s) (hspace : trim s.toList ≠ s.toList)

/-! ## White space -/

/-- `str::trim_end`. -/
def trimEnd (cs : List Char) : List Char := cs.rdropWhile isWhitespace

/-- Spaces are taken off the front, then off the end. -/
theorem trim_eq (cs : List Char) : trim cs = trimEnd (cs.dropWhile isWhitespace) := rfl

/-- A first character that is no space stays. -/
theorem trimEnd_cons {c : Char} (hc : isWhitespace c = false) (cs : List Char) :
    trimEnd (c :: cs) = c :: trimEnd cs := by
  have hback : List.dropWhile isWhitespace [c] = [c] :=
    List.dropWhile_cons_of_neg (by rw [hc]; exact Bool.false_ne_true)
  rw [trimEnd, List.rdropWhile, List.reverse_cons, List.dropWhile_append, hback]
  split
  · next hempty =>
    rw [trimEnd, List.rdropWhile, List.isEmpty_iff.1 hempty]
    rfl
  · rw [List.reverse_append]
    rfl

/-- With it nothing is taken off the front. -/
theorem trim_cons {c : Char} (hc : isWhitespace c = false) (cs : List Char) :
    trim (c :: cs) = c :: trimEnd cs := by
  rw [trim_eq, List.dropWhile_cons_of_neg (by rw [hc]; exact Bool.false_ne_true), trimEnd_cons hc]

/-- A space in front is taken off. -/
theorem trim_cons_space {w : Char} (hw : isWhitespace w = true) (cs : List Char) :
    trim (w :: cs) = trim cs := by
  rw [trim_eq, List.dropWhile_cons_of_pos hw, trim_eq]

/-- What `CAP_` is followed by is trimmed at the end only. -/
theorem trim_front (cs : List Char) :
    trim (['C', 'A', 'P', '_'] ++ cs) = ['C', 'A', 'P', '_'] ++ trimEnd cs := by
  show trim ('C' :: 'A' :: 'P' :: '_' :: cs) = 'C' :: 'A' :: 'P' :: '_' :: trimEnd cs
  rw [trim_cons (by decide), trimEnd_cons (by decide), trimEnd_cons (by decide),
    trimEnd_cons (by decide)]

/-- A text that is trimmed at the end starts as the text does. -/
theorem eq_cons_of_trimEnd {c : Char} {cs ds : List Char} (hcs : trimEnd cs = c :: ds) :
    ∃ rest, cs = c :: rest := by
  have hprefix : trimEnd cs <+: cs := List.rdropWhile_prefix _ _
  obtain ⟨rest, hrest⟩ := hprefix
  exact ⟨ds ++ rest, by rw [← hrest, hcs, List.cons_append]⟩

/-- Trimming again changes nothing. -/
theorem trim_trim (cs : List Char) : trim (trim cs) = trim cs := by
  have hfront : (trim cs).dropWhile isWhitespace = trim cs := by
    cases htrim : trim cs with
    | nil => rfl
    | cons c ds =>
      rw [trim_eq] at htrim
      obtain ⟨rest, hrest⟩ := eq_cons_of_trimEnd htrim
      have hc := List.head_dropWhile_not isWhitespace (l := cs)
      simp only [hrest, List.head_cons] at hc
      exact List.dropWhile_cons_of_neg (by rw [hc (List.cons_ne_nil _ _)]; exact Bool.false_ne_true)
  rw [trim_eq (trim cs), hfront, trim_eq]
  exact List.rdropWhile_idempotent _ _

/-! ## Case -/

/-- The lower case letters of ASCII, by their numbers. -/
theorem isLower_iff {c : Char} : c.isLower = true ↔ 97 ≤ c.toNat ∧ c.toNat ≤ 122 := by
  show (decide _ && decide _) = true ↔ _
  rw [Bool.and_eq_true, decide_eq_true_iff, decide_eq_true_iff]
  exact Iff.rfl

/-- A lower case letter loses 32. -/
theorem toNat_toUpper (c : Char) :
    c.toUpper.toNat = if c.isLower then c.toNat - 32 else c.toNat := by
  -- The two cases of the standard definition
  show (if h : _ then Char.mk _ _ else c).toNat = _
  split
  · next hlower =>
    have hiff : c.isLower = true := isLower_iff.2 hlower
    obtain ⟨hlo, hhi⟩ := isLower_iff.1 hiff
    rw [if_pos hiff, Char.toNat_mk, UInt32.toNat_add]
    show (c.toNat + 4294967264) % 4294967296 = _
    omega
  · next hlower =>
    rw [if_neg]
    intro hiff
    exact hlower (isLower_iff.1 hiff)

/-- Upper case keeps to ASCII, and comes from nowhere else. -/
theorem toUpper_lt {c : Char} : c.toUpper.toNat < 128 ↔ c.toNat < 128 := by
  rw [toNat_toUpper]
  split
  · next hlower =>
    have := isLower_iff.1 hlower
    omega
  · exact Iff.rfl

/-- On ASCII the upper case of a character is the ASCII one. -/
theorem toUppercaseChar_of_ascii {c : Char} (hc : c.toNat < 128) :
    toUppercaseChar c = [c.toUpper] := by
  unfold toUppercaseChar
  split
  · rfl
  · next hlower =>
    have hupper : c.toUpper = c := by
      rw [← Char.toNat_inj, toNat_toUpper, if_neg hlower]
    rw [hupper]
    split <;> first | omega | rfl

/-- A space is its own upper case. -/
theorem toUpper_of_space {c : Char} (hc : isWhitespace c = true) : toUppercaseChar c = [c] := by
  unfold isWhitespace at hc
  unfold toUppercaseChar
  have hlower : c.isLower = false := by
    rw [Bool.eq_false_iff, ne_eq, isLower_iff]
    simp at hc
    omega
  rw [hlower, if_neg Bool.false_ne_true]
  split
  all_goals first | rfl | (simp_all)

/-- What all of a list of characters are, as `decide` checks it. -/
private theorem of_all {l : List Char} {p : Char → Prop} [DecidablePred p]
    (h : (l.all fun c => p c) = true) : ∀ c ∈ l, p c :=
  fun c hc => of_decide_eq_true (List.all_eq_true.1 h c hc)

/-- The upper case of anything else has no space in it. -/
theorem toUpper_of_not_space {c : Char} (hc : isWhitespace c = false) :
    toUppercaseChar c ≠ [] ∧ ∀ d ∈ toUppercaseChar c, isWhitespace d = false := by
  unfold toUppercaseChar
  -- The letters, the others of ASCII, and what is left
  split
  · next hlower =>
    obtain ⟨hlo, hhi⟩ := isLower_iff.1 hlower
    refine ⟨List.cons_ne_nil _ _, fun d hd => ?_⟩
    rw [List.mem_singleton.1 hd]
    unfold isWhitespace
    rw [toNat_toUpper, if_pos hlower]
    simp
    omega
  · split
    all_goals first
      | exact ⟨List.cons_ne_nil _ _, of_all (by decide)⟩
      | exact ⟨List.cons_ne_nil _ _, fun d hd => by rwa [List.mem_singleton.1 hd]⟩

/-- A character in whose place there are others of its kind. -/
private theorem dropWhile_flatMap {p : Char → Bool} {f : Char → List Char}
    (hspace : ∀ c, p c = true → f c = [c])
    (hother : ∀ c, p c = false → f c ≠ [] ∧ ∀ d ∈ f c, p d = false) (cs : List Char) :
    (cs.flatMap f).dropWhile p = (cs.dropWhile p).flatMap f := by
  induction cs with
  | nil => rfl
  | cons c cs ih =>
    -- A space goes on either side, and with anything else both stop
    rw [List.flatMap_cons]
    cases hc : p c with
    | true =>
      rw [hspace c hc, List.singleton_append, List.dropWhile_cons_of_pos hc,
        List.dropWhile_cons_of_pos hc, ih]
    | false =>
      obtain ⟨hne, hno⟩ := hother c hc
      obtain ⟨d, ds, hd⟩ := List.exists_cons_of_ne_nil hne
      have hfirst : p d = false := hno d (hd ▸ List.mem_cons_self)
      rw [List.dropWhile_cons_of_neg (by rw [hc]; exact Bool.false_ne_true), List.flatMap_cons, hd,
        List.cons_append, List.dropWhile_cons_of_neg (by rw [hfirst]; exact Bool.false_ne_true)]

/-- Upper case leaves white space where it is. -/
theorem trim_toUppercase (cs : List Char) : trim (toUppercase cs) = toUppercase (trim cs) := by
  have hfront : (toUppercase cs).dropWhile isWhitespace = toUppercase (cs.dropWhile isWhitespace) :=
    dropWhile_flatMap (fun _ => toUpper_of_space) (fun _ => toUpper_of_not_space) cs
  have hback := dropWhile_flatMap (p := isWhitespace) (f := List.reverse ∘ toUppercaseChar)
    (fun c hc => by rw [Function.comp_apply, toUpper_of_space hc, List.reverse_singleton])
    (fun c hc => ⟨fun heq => (toUpper_of_not_space hc).1 (List.reverse_eq_nil_iff.1 heq),
      fun d hd => (toUpper_of_not_space hc).2 d (List.mem_reverse.1 hd)⟩)
    (cs.dropWhile isWhitespace).reverse
  rw [trim, hfront, trim, toUppercase, List.reverse_flatMap, hback, toUppercase,
    List.flatMap_reverse]

/-- On ASCII there is one upper case. -/
theorem toUppercase_of_ascii {cs : List Char} (hcs : ∀ c ∈ cs, c.toNat < 128) :
    toUppercase cs = asciiUpper cs := by
  induction cs with
  | nil => rfl
  | cons c cs ih =>
    rw [toUppercase, List.flatMap_cons, toUppercaseChar_of_ascii (hcs c List.mem_cons_self)]
    exact congrArg _ (ih fun d hd => hcs d (List.mem_cons_of_mem c hd))

/-- Text that is ASCII in upper case is ASCII. -/
theorem ascii_of_asciiUpper {cs : List Char} (hcs : ∀ c ∈ asciiUpper cs, c.toNat < 128) :
    ∀ c ∈ cs, c.toNat < 128 :=
  fun _ hc => toUpper_lt.1 (hcs _ (List.mem_map_of_mem hc))

/-! ## Names -/

namespace CapabilityBit

/-- What a canonical name is made of. -/
private theorem asRef_spec : ∀ c ∈ all, c.asRef.toList ≠ [] ∧ c.asRef.toList ≠ ['A', 'L', 'L'] ∧
    ¬ ['C', 'A', 'P', '_'] <+: c.asRef.toList ∧
    (c.asRef.toList.all fun ch => ch.toNat < 128 ∧ isWhitespace ch = false) = true ∧
    (all.find? fun d => c.asRef.toList = d.asRef.toList) = some c := by
  decide +kernel

/-- No name is empty. -/
theorem asRef_ne_nil (c : CapabilityBit) : c.asRef.toList ≠ [] := (asRef_spec c (mem_all c)).1

/-- No name is `ALL`. -/
theorem asRef_ne_all (c : CapabilityBit) : c.asRef.toList ≠ ['A', 'L', 'L'] :=
  (asRef_spec c (mem_all c)).2.1

/-- No name begins with `CAP_`. -/
theorem not_front_asRef (c : CapabilityBit) : ¬ ['C', 'A', 'P', '_'] <+: c.asRef.toList :=
  (asRef_spec c (mem_all c)).2.2.1

/-- Names are ASCII. -/
theorem ascii_asRef (c : CapabilityBit) : ∀ ch ∈ c.asRef.toList, ch.toNat < 128 :=
  fun ch hch => (of_all (asRef_spec c (mem_all c)).2.2.2.1 ch hch).1

/-- Names contain no space. -/
theorem isWhitespace_asRef (c : CapabilityBit) : ∀ ch ∈ c.asRef.toList, isWhitespace ch = false :=
  fun ch hch => (of_all (asRef_spec c (mem_all c)).2.2.2.1 ch hch).2

/-- A name is found in the table, for its own capability. -/
theorem find_asRef (c : CapabilityBit) :
    (all.find? fun d => c.asRef.toList = d.asRef.toList) = some c :=
  (asRef_spec c (mem_all c)).2.2.2.2

/-- A name is ASCII with `CAP_` in front as well. -/
theorem ascii_front (c : CapabilityBit) :
    ∀ ch ∈ ['C', 'A', 'P', '_'] ++ c.asRef.toList, ch.toNat < 128 := by
  intro ch hch
  rcases List.mem_append.1 hch with hcap | hch
  · exact of_all (l := ['C', 'A', 'P', '_']) (p := fun ch => ch.toNat < 128) (by decide) ch hcap
  · exact c.ascii_asRef ch hch

/-- The search finds the one capability of the name. -/
theorem find_eq_some {cs : List Char} {c : CapabilityBit} :
    (all.find? fun d => cs = d.asRef.toList) = some c ↔ cs = c.asRef.toList := by
  constructor
  · intro hfind
    simpa using List.find?_some hfind
  · rintro rfl
    exact c.find_asRef

/-! ## What `from_str` accepts -/

/-- A text is taken for the capability whose name its upper case is, without `CAP_` and spaces. -/
private theorem fromStr_eq_ok {s : String} {c : CapabilityBit} : fromStr s = .ok c ↔
    trim (toUppercase (if ['C', 'A', 'P', '_'] <+: s.toList ∧ s.utf8ByteSize > 4
      then s.toList.drop 4 else trim s.toList)) = c.asRef.toList := by
  rw [← find_eq_some]
  unfold fromStr
  dsimp only
  split
  · next heq => simp [heq]
  · next heq => simp [heq]

/-- Without `CAP_` in front the text is trimmed. -/
theorem fromStr_eq_ok_of_not_front {s : String} (hfront : ¬ ['C', 'A', 'P', '_'] <+: s.toList)
    {c : CapabilityBit} : fromStr s = .ok c ↔ toUppercase (trim s.toList) = c.asRef.toList := by
  rw [fromStr_eq_ok, if_neg fun hand => hfront hand.1, trim_toUppercase, trim_trim]

/-- With `CAP_` in front what follows is trimmed. -/
theorem fromStr_eq_ok_of_front {s : String} {cs : List Char}
    (hs : s.toList = ['C', 'A', 'P', '_'] ++ cs) {c : CapabilityBit} :
    fromStr s = .ok c ↔ toUppercase (trim cs) = c.asRef.toList := by
  have hfront : ['C', 'A', 'P', '_'] <+: s.toList := ⟨cs, hs.symm⟩
  have hdrop : s.toList.drop 4 = cs := by rw [hs]; rfl
  rw [fromStr_eq_ok, ← trim_toUppercase]
  by_cases hlong : s.utf8ByteSize > 4
  · rw [if_pos ⟨hfront, hlong⟩, hdrop]
  · -- `CAP_` itself is not a name, and neither is the empty text.
    have hcs : cs = [] := by
      have hsize : s = "CAP_" ++ String.ofList cs := by
        rw [← String.toList_inj, String.toList_append, hs]
        simp
      rw [hsize, String.utf8ByteSize_append] at hlong
      have hzero : (String.ofList cs).utf8ByteSize = 0 := by
        have : "CAP_".utf8ByteSize = 4 := by decide
        omega
      rw [String.utf8ByteSize_eq_zero_iff] at hzero
      rw [← String.toList_ofList (l := cs), hzero]
      rfl
    subst hcs
    rw [if_neg fun hand => hlong hand.2, hs]
    constructor
    · intro heq
      exact absurd ⟨[], heq⟩ c.not_front_asRef
    · intro heq
      exact absurd heq.symm c.asRef_ne_nil

/-! ## Where it leaves the grammar -/

/-- A name that follows `CAP_` is not behind white space. -/
theorem exists_cons_of_trimEnd {cs : List Char} {c : CapabilityBit}
    (hname : toUppercase (trimEnd cs) = c.asRef.toList) :
    ∃ d rest, cs = d :: rest ∧ isWhitespace d = false := by
  -- The end of an empty text would be no name
  cases htrim : trimEnd cs with
  | nil =>
    rw [htrim] at hname
    exact absurd hname.symm c.asRef_ne_nil
  | cons d ds =>
    obtain ⟨rest, hrest⟩ := eq_cons_of_trimEnd htrim
    refine ⟨d, rest, hrest, ?_⟩
    -- A space in front would be in the name
    by_contra hspace
    rw [Bool.not_eq_false] at hspace
    have hmem : d ∈ c.asRef.toList := by
      rw [← hname, htrim, toUppercase, List.flatMap_cons, toUpper_of_space hspace]
      exact List.mem_cons_self
    rw [c.isWhitespace_asRef d hmem] at hspace
    cases hspace

/-- A name that is left by trimming the end has no space in front. -/
theorem trim_eq_trimEnd {cs : List Char} {c : CapabilityBit}
    (hname : toUppercase (trimEnd cs) = c.asRef.toList) : trim cs = trimEnd cs := by
  obtain ⟨d, rest, rfl, hd⟩ := exists_cons_of_trimEnd hname
  rw [trim_cons hd, trimEnd_cons hd]

/-- `CAP_` is its own upper case in ASCII. -/
theorem asciiUpper_front (cs : List Char) :
    asciiUpper (['C', 'A', 'P', '_'] ++ cs) = ['C', 'A', 'P', '_'] ++ asciiUpper cs := by
  rw [asciiUpper, List.map_append]
  rfl

/-- `CAP_` is its own upper case. -/
theorem toUppercase_front (cs : List Char) :
    toUppercase (['C', 'A', 'P', '_'] ++ cs) = ['C', 'A', 'P', '_'] ++ toUppercase cs := by
  rw [toUppercase, List.flatMap_append]
  rfl

/-- A text that does not start with `CAP_` once trimmed did not before. -/
theorem not_front_of_trim {s : String} {cs : List Char} (hcs : ¬ ['C', 'A', 'P', '_'] <+: cs)
    (htrim : asciiUpper (trim s.toList) = cs) : ¬ ['C', 'A', 'P', '_'] <+: s.toList := by
  rintro ⟨rest, hs⟩
  rw [← hs, trim_front] at htrim
  exact hcs ⟨asciiUpper (trimEnd rest), by rw [← htrim, asciiUpper_front]⟩

/-- Text that denotes a capability is ASCII, spaces apart. -/
theorem ascii_of_denotes {s : String} {c : CapabilityBit} (hc : c.Denotes s) :
    ∀ ch ∈ trim s.toList, ch.toNat < 128 := by
  apply ascii_of_asciiUpper
  rcases hc with hname | hname
  · rw [hname]
    exact c.ascii_asRef
  · rw [hname]
    exact c.ascii_front

/-- What is accepted is a name, unless there is a gap or a letter that is not ASCII. -/
theorem denotes_of_fromStr {s : String} (hreg : ¬ Irregular s) {c : CapabilityBit}
    (hok : fromStr s = .ok c) : c.Denotes s := by
  -- With `CAP_` in front, or without
  by_cases hfront : ['C', 'A', 'P', '_'] <+: s.toList
  · obtain ⟨cs, hs⟩ := hfront
    rw [fromStr_eq_ok_of_front hs.symm] at hok
    -- A space after `CAP_` would be a gap, so only the end is trimmed
    have htrim : trim cs = trimEnd cs := by
      cases cs with
      | nil => rfl
      | cons w cs =>
        by_cases hspace : isWhitespace w = true
        · rw [trim_cons_space hspace] at hok
          exact absurd (.gap c w cs hs.symm hspace hok) hreg
        · rw [Bool.not_eq_true] at hspace
          rw [trim_cons hspace, trimEnd_cons hspace]
    -- Without the spaces the whole text is the name, in upper case
    have hupper : toUppercase (trim s.toList) = ['C', 'A', 'P', '_'] ++ c.asRef.toList := by
      rw [← hs, trim_front, toUppercase_front, ← htrim, hok]
    right
    rw [← hupper, toUppercase_of_ascii]
    intro ch hch
    by_contra hascii
    exact hreg (.letters c ch hch (Nat.le_of_not_lt hascii) (.inr ⟨hupper, cs, hs⟩))
  · rw [fromStr_eq_ok_of_not_front hfront] at hok
    left
    rw [← hok, toUppercase_of_ascii]
    intro ch hch
    by_contra hascii
    exact hreg (.letters c ch hch (Nat.le_of_not_lt hascii) (.inl hok))

/-- A name is accepted, unless `CAP_` is in lower case or behind white space. -/
theorem fromStr_of_denotes {s : String} (hreg : ¬ Irregular s) {c : CapabilityBit}
    (hc : c.Denotes s) : fromStr s = .ok c := by
  have hascii := ascii_of_denotes hc
  -- As a bare name, or with `CAP_` in front
  rcases hc with hname | hname
  · have hfront := not_front_of_trim c.not_front_asRef hname
    rw [fromStr_eq_ok_of_not_front hfront, toUppercase_of_ascii hascii, hname]
  · have hfront : ['C', 'A', 'P', '_'] <+: s.toList := by
      by_contra hfront
      exact hreg (.front c hname hfront)
    obtain ⟨cs, hs⟩ := hfront
    rw [← hs, trim_front] at hname hascii
    rw [asciiUpper_front] at hname
    have hrest : toUppercase (trimEnd cs) = c.asRef.toList := by
      rw [toUppercase_of_ascii fun ch hch => hascii ch (List.mem_append_right _ hch)]
      exact List.append_cancel_left hname
    rw [fromStr_eq_ok_of_front hs.symm, trim_eq_trimEnd hrest, hrest]

end CapabilityBit

/-! ## Lists of names -/

namespace Capabilities

/-- The loop goes on while each string is a name, or `ALL`. -/
theorem namesAsSet_isOk {names : List String} : (∃ caps, namesAsSet names = .ok caps) ↔
    ∀ s ∈ names, (∃ c, CapabilityBit.fromStr s = .ok c) ∨ toUppercase s.toList = ['A', 'L', 'L'] := by
  unfold namesAsSet
  -- The set grows along the list, so the induction is for any set to start with
  generalize (∅ : Finset CapabilityBit) = caps₀
  induction names generalizing caps₀ with
  | nil =>
    constructor
    · intro _ s hs
      cases hs
    · intro _
      exact ⟨caps₀, rfl⟩
  | cons name names ih =>
    rw [List.foldlM_cons, List.forall_mem_cons]
    cases hname : CapabilityBit.fromStr name with
    | ok bit =>
      refine (ih (insert bit caps₀)).trans ?_
      simp
    | error e =>
      by_cases hall : toUppercase name.toList = ['A', 'L', 'L']
      · dsimp only
        rw [if_pos hall]
        refine (ih (caps₀ ∪ CapabilityBit.all.toFinset)).trans ?_
        simp [hall]
      · dsimp only
        rw [if_neg hall]
        -- Neither a name nor `ALL`: the fold stops here
        constructor
        · rintro ⟨_, hok⟩
          cases hok
        · rintro ⟨⟨_, hok⟩ | hall', -⟩
          · cases hok
          · exact absurd hall' hall

/-- The set that is collected is read out in some order. -/
theorem namesAsBits_isOk {names : List String} :
    (∃ h caps, (namesAsBits names).Runs h (.ok caps)) ↔ ∃ caps, namesAsSet names = .ok caps := by
  constructor
  · rintro ⟨h, l, hr⟩
    unfold namesAsBits at hr
    rw [runs_bind_ok] at hr
    obtain ⟨caps, h₁, h₂, hset, -⟩ := hr
    rw [orFail, runs_check] at hset
    obtain ⟨-, ⟨_, hok, -⟩ | ⟨_, -, herr⟩⟩ := hset
    · exact ⟨_, hok⟩
    · cases herr
  · -- A list without duplicates is one order of the set
    rintro ⟨caps, hset⟩
    let order : { l : List CapabilityBit // l.Nodup ∧ ∀ c, c ∈ l ↔ c ∈ caps } :=
      ⟨caps.toList, caps.nodup_toList, fun _ => caps.mem_toList⟩
    refine ⟨[⟨.capHashIter caps, order⟩], order.1, ?_⟩
    unfold namesAsBits
    rw [hset]
    exact .call (.refl _)

end Capabilities

/-- A letter that is not ASCII has more in its upper case than `ALL` is made of. -/
theorem exists_mem_toUppercaseChar {c : Char} (hc : 128 ≤ c.toNat) :
    ∃ d ∈ toUppercaseChar c, d ∉ ['A', 'L', 'L'] := by
  unfold toUppercaseChar
  rw [if_neg fun hlower => absurd (isLower_iff.1 hlower).2 (by omega)]
  split
  all_goals first
    | exact ⟨_, List.mem_cons_self, by decide⟩
    | exact ⟨_, List.mem_cons_of_mem _ List.mem_cons_self, by decide⟩
    | (refine ⟨c, List.mem_singleton_self c, fun hmem => absurd hc (Nat.not_le_of_lt ?_)⟩
       exact of_all (l := ['A', 'L', 'L']) (p := fun ch => ch.toNat < 128) (by decide) c hmem)

/-- A text that `names_as_set` takes for all denotes all. -/
theorem denotesAll_of_toUppercase {s : String} (hs : toUppercase s.toList = ['A', 'L', 'L']) :
    DenotesAll s := by
  have htrim : toUppercase (trim s.toList) = ['A', 'L', 'L'] := by
    rw [← trim_toUppercase, hs]
    decide
  rw [DenotesAll, ← htrim, toUppercase_of_ascii]
  intro ch hch
  by_contra hascii
  obtain ⟨d, hd, hno⟩ := exists_mem_toUppercaseChar (Nat.le_of_not_lt hascii)
  exact hno (htrim ▸ List.mem_flatMap.2 ⟨ch, hch, hd⟩)

/-- A text that denotes all, and is regular, is taken for all. -/
theorem toUppercase_of_denotesAll {s : String} (hreg : ¬ Irregular s) (hs : DenotesAll s) :
    toUppercase s.toList = ['A', 'L', 'L'] := by
  have htrim : trim s.toList = s.toList := by
    by_contra hspace
    exact hreg (.all hs hspace)
  rw [DenotesAll, htrim] at hs
  rw [toUppercase_of_ascii, hs]
  apply ascii_of_asciiUpper
  rw [hs]
  exact of_all (by decide)

/-- The grammar is uniform on every regular string. -/
theorem uniformOn_of_regular {S : Set String} (hreg : ∀ s ∈ S, ¬ Irregular s) : UniformOn S := by
  have hname : ∀ s ∈ S, ∀ c, CapabilityBit.fromStr s = .ok c ↔ c.Denotes s := fun s hs c =>
    ⟨CapabilityBit.denotes_of_fromStr (hreg s hs), CapabilityBit.fromStr_of_denotes (hreg s hs)⟩
  refine ⟨hname, fun names hnames => ?_, fun s hs t ht heq c => ?_⟩
  · rw [Capabilities.namesAsBits_isOk, Capabilities.namesAsSet_isOk]
    apply forall₂_congr
    intro s hs
    have hs' := hnames s hs
    rw [exists_congr (hname s hs')]
    exact or_congr Iff.rfl ⟨denotesAll_of_toUppercase, toUppercase_of_denotesAll (hreg s hs')⟩
  · rw [hname s hs, hname t ht, CapabilityBit.Denotes, CapabilityBit.Denotes, heq]

/-- Text without spaces is left as it is. -/
theorem trim_of_noSpace {cs : List Char} (hcs : ∀ c ∈ cs, isWhitespace c = false) :
    trim cs = cs := by
  have hend : trimEnd cs = cs := by
    induction cs with
    | nil => rfl
    | cons c cs ih =>
      rw [trimEnd_cons (hcs c List.mem_cons_self), ih fun d hd => hcs d (List.mem_cons_of_mem c hd)]
  cases cs with
  | nil => rfl
  | cons c cs =>
    have hc := hcs c List.mem_cons_self
    rw [trim_cons hc, ← trimEnd_cons hc, hend]

namespace CapabilityBit

/-- What has a letter that is not ASCII is accepted all the same. -/
theorem fromStr_of_toUppercase {s : String} {c : CapabilityBit}
    (hname : toUppercase (trim s.toList) = c.asRef.toList ∨
      toUppercase (trim s.toList) = ['C', 'A', 'P', '_'] ++ c.asRef.toList ∧
        ['C', 'A', 'P', '_'] <+: s.toList) : fromStr s = .ok c := by
  rcases hname with hname | ⟨hname, cs, hs⟩
  · rw [fromStr_eq_ok_of_not_front, hname]
    rintro ⟨cs, hs⟩
    rw [← hs, trim_front, toUppercase_front] at hname
    exact c.not_front_asRef ⟨_, hname⟩
  · rw [← hs, trim_front, toUppercase_front] at hname
    have hrest : toUppercase (trimEnd cs) = c.asRef.toList := List.append_cancel_left hname
    rw [fromStr_eq_ok_of_front hs.symm, trim_eq_trimEnd hrest, hrest]

/-- `ALL` is no capability's name. -/
theorem not_denotes_of_denotesAll {s : String} (hs : DenotesAll s) (c : CapabilityBit) :
    ¬ c.Denotes s := by
  rintro (hname | hname)
  · exact c.asRef_ne_all (hname.symm.trans hs)
  · have hfront : ['C', 'A', 'P', '_'] <+: ['A', 'L', 'L'] := ⟨_, hname.symm.trans hs⟩
    exact absurd hfront (by decide)

end CapabilityBit

/-- Every irregular string breaks it. -/
theorem not_irregular_of_uniformOn {S : Set String} (hS : UniformOn S) {s : String} (hs : s ∈ S) :
    ¬ Irregular s := by
  intro hirr
  cases hirr with
  | front c hname hfront =>
    -- `CAP_` twice: a name, but not one that `from_str` knows
    have hc : c.Denotes s := .inr hname
    have hok := (hS.name s hs c).2 hc
    rw [CapabilityBit.fromStr_eq_ok_of_not_front hfront,
      toUppercase_of_ascii (CapabilityBit.ascii_of_denotes hc), hname] at hok
    exact c.not_front_asRef ⟨_, hok⟩
  | gap c w cs hcs hspace hname =>
    -- A space after `CAP_`: accepted, but not a name
    rw [← trim_cons_space hspace, ← CapabilityBit.fromStr_eq_ok_of_front hcs, hS.name s hs] at hname
    have hascii := CapabilityBit.ascii_of_denotes hname
    rcases hname with hname | hname
    · exact CapabilityBit.not_front_of_trim c.not_front_asRef hname ⟨_, hcs.symm⟩
    · rw [hcs, trim_front] at hname hascii
      rw [CapabilityBit.asciiUpper_front] at hname
      have hrest : toUppercase (trimEnd (w :: cs)) = c.asRef.toList := by
        rw [toUppercase_of_ascii fun ch hch => hascii ch (List.mem_append_right _ hch)]
        exact List.append_cancel_left hname
      obtain ⟨d, rest, heq, hd⟩ := CapabilityBit.exists_cons_of_trimEnd hrest
      cases heq
      rw [hd] at hspace
      cases hspace
  | letters c ch hch hascii hname =>
    -- A letter that is ASCII in upper case only: accepted, but not a name
    have hc := (hS.name s hs c).1 (CapabilityBit.fromStr_of_toUppercase hname)
    exact absurd (CapabilityBit.ascii_of_denotes hc ch hch) (Nat.not_lt_of_le hascii)
  | all hname hspace =>
    -- `ALL` between spaces: the one parser takes it and the other does not
    have hlist := hS.list [s] fun t ht => List.mem_singleton.1 ht ▸ hs
    rw [List.forall_mem_singleton, Capabilities.namesAsBits_isOk, Capabilities.namesAsSet_isOk,
      List.forall_mem_singleton] at hlist
    rcases hlist.2 (.inr hname) with ⟨c, hok⟩ | hall
    · exact CapabilityBit.not_denotes_of_denotesAll hname c ((hS.name s hs c).1 hok)
    · refine hspace (trim_of_noSpace fun ch hch => ?_)
      by_contra hch'
      rw [Bool.not_eq_false] at hch'
      have hmem : ch ∈ toUppercase s.toList :=
        List.mem_flatMap.2 ⟨ch, hch, toUpper_of_space hch' ▸ List.mem_singleton_self ch⟩
      rw [hall] at hmem
      exact absurd hch' (Bool.eq_false_iff.1
        (of_all (l := ['A', 'L', 'L']) (p := fun d => isWhitespace d = false) (by decide) ch hmem))

/-- The grammar of capability names is uniform as long as no string is irregular. -/
theorem uniformOn_iff (S : Set String) : UniformOn S ↔ ∀ s ∈ S, ¬ Irregular s :=
  ⟨fun hS _ hs => not_irregular_of_uniformOn hS hs, uniformOn_of_regular⟩

/-- In lower case `CAP_` is not known as what it is. -/
theorem not_uniformOn_capChown : ¬ UniformOn {"cap_chown"} := by
  intro hS
  have hok := (hS.name "cap_chown" rfl .chown).2 (by decide)
  revert hok
  decide

end Styrolite
