import Styrolite.Native.Exec

/-!
# What a list of capability names stands for

A list of names stands for the capabilities that it names one by one, or for all of
them where it has `ALL`. What `apply_capabilities` passes to `capset(2)` is said in
these terms, bit by bit.

## Key results

- `Capabilities.namesAsSet_ok`: which capabilities a list of names stands for
- `Capabilities.known_of_namesAsSet`: a list that stands for any has known names only
- `capset_words`: the bits of the words for `capset(2)`
-/

namespace Styrolite

open Prog

/-! ## Names -/

/-- The list names the capability, by a name of its own or through `ALL`. -/
def Capabilities.Names (names : List String) (c : CapabilityBit) : Prop :=
  ∃ name ∈ names, CapabilityBit.fromStr name = .ok c ∨
    ((∃ e, CapabilityBit.fromStr name = .error e) ∧ toUppercase name.toList = ['A', 'L', 'L'])

/-- A loop that adds what each name stands for to the set it starts from. -/
private theorem foldlM_names {f : Finset CapabilityBit → String → Except Err (Finset CapabilityBit)}
    (hbit : ∀ s name bit, CapabilityBit.fromStr name = .ok bit → f s name = .ok (insert bit s))
    (hother : ∀ s name e, CapabilityBit.fromStr name = .error e → f s name =
      if toUppercase name.toList = ['A', 'L', 'L'] then .ok (s ∪ CapabilityBit.all.toFinset)
      else .error (.msg ("unknown capability: " ++ name)))
    {names : List String} {s₀ s : Finset CapabilityBit} (hs : names.foldlM f s₀ = .ok s)
    (c : CapabilityBit) : c ∈ s ↔ c ∈ s₀ ∨ Capabilities.Names names c := by
  induction names generalizing s₀ with
  | nil =>
    cases hs
    simp [Capabilities.Names]
  | cons name names ih =>
    rw [List.foldlM_cons] at hs
    -- The first name stands for a capability, or for all of them
    have hnames : Capabilities.Names (name :: names) c ↔ (CapabilityBit.fromStr name = .ok c ∨
        ((∃ e, CapabilityBit.fromStr name = .error e) ∧
          toUppercase name.toList = ['A', 'L', 'L'])) ∨ Capabilities.Names names c := by
      simp only [Capabilities.Names, List.mem_cons, or_and_right, exists_or, exists_eq_left]
    cases hname : CapabilityBit.fromStr name with
    | ok bit =>
      rw [hbit s₀ name bit hname] at hs
      rw [ih hs, hnames, hname]
      simp only [Finset.mem_insert, Except.ok.injEq, reduceCtorEq, exists_false, false_and,
        or_false, eq_comm (a := bit)]
      rw [or_comm (a := c = bit), or_assoc]
    | error e =>
      rw [hother s₀ name e hname] at hs
      by_cases hall : toUppercase name.toList = ['A', 'L', 'L']
      · rw [if_pos hall] at hs
        rw [ih hs, hnames, hname]
        simp [hall, c.mem_all]
      · -- Any other name is an error, and the fold has succeeded
        rw [if_neg hall] at hs
        cases hs

/-- The set collected from a list of names has the capabilities the list names. -/
theorem Capabilities.namesAsSet_ok {names : List String} {s : Finset CapabilityBit}
    (hs : namesAsSet names = .ok s) (c : CapabilityBit) : c ∈ s ↔ Names names c := by
  unfold namesAsSet at hs
  rw [foldlM_names (fun s name bit hname => by rw [hname])
    (fun s name e hname => by rw [hname]) hs c]
  simp

namespace Capabilities

/-- Each name is that of a capability, or `ALL`. -/
def Known (names : List String) : Prop :=
  ∀ name ∈ names, (∃ bit, CapabilityBit.fromStr name = .ok bit) ∨
    toUppercase name.toList = ['A', 'L', 'L']

/-- A list of known names stands for a set. -/
theorem Known.namesAsSet {names : List String} (hk : Known names) :
    ∃ s, Capabilities.namesAsSet names = .ok s := by
  unfold Capabilities.namesAsSet
  generalize (∅ : Finset CapabilityBit) = s₀
  induction names generalizing s₀ with
  | nil => exact ⟨s₀, rfl⟩
  | cons name names ih =>
    have ih := ih fun n hn => hk n (List.mem_cons_of_mem name hn)
    rw [List.foldlM_cons]
    cases hname : CapabilityBit.fromStr name with
    | ok bit => exact ih _
    | error e =>
      obtain ⟨bit, hbit⟩ | hall := hk name List.mem_cons_self
      · rw [hname] at hbit
        cases hbit
      · rw [if_pos hall]
        exact ih _

theorem known_of_namesAsSet {names : List String} {s : Finset CapabilityBit}
    (hs : Capabilities.namesAsSet names = .ok s) : Known names := by
  unfold Capabilities.namesAsSet at hs
  -- The set grows along the list, so the induction is for any set to start with
  generalize (∅ : Finset CapabilityBit) = s₀ at hs
  induction names generalizing s₀ with
  | nil => exact fun name hname => by simp at hname
  | cons name names ih =>
    rw [List.foldlM_cons] at hs
    refine fun n hn => ?_
    cases hname : CapabilityBit.fromStr name with
    | ok bit =>
      rw [hname] at hs
      rcases List.mem_cons.1 hn with rfl | hn
      · exact .inl ⟨bit, hname⟩
      · exact ih _ hs n hn
    | error e =>
      rw [hname] at hs
      by_cases hall : toUppercase name.toList = ['A', 'L', 'L']
      · rcases List.mem_cons.1 hn with rfl | hn
        · exact .inr hall
        · rw [if_pos hall] at hs
          exact ih _ hs n hn
      · -- Neither a name nor `ALL`: the fold stops with an error
        rw [if_neg hall] at hs
        cases hs

end Capabilities

/-! ## Words -/

/-- The 32-bit words with the given number, one for each set. -/
def capWord (data : CapInternalData × CapInternalData) (i : Nat) : CapInternalData :=
  if i = 0 then data.1 else data.2

/-- A bit of a mask is in the low word or in the high one. -/
theorem getLsbD_wordsToMask (hi lo : BitVec 32) {n : Nat} (hn : n < 64) :
    (wordsToMask hi lo).getLsbD n =
      if n / 32 = 0 then lo.getLsbD (n % 32) else hi.getLsbD (n % 32) := by
  simp only [wordsToMask, BitVec.getLsbD_or, BitVec.getLsbD_shiftLeft, BitVec.getLsbD_setWidth]
  by_cases h : n < 32
  · rw [if_pos (by omega), Nat.mod_eq_of_lt h]
    simp [h, hn]
  · have hmod : n % 32 = n - 32 := by omega
    rw [if_neg (by omega), hmod, BitVec.getLsbD_of_ge lo n (by omega)]
    simp [h, hn, show n - 32 < 64 by omega]

/-- The bits of the words that are read from the kernel. -/
theorem getLsbD_effective_read (data : CapInternalData × CapInternalData) {n : Nat} (hn : n < 64) :
    (capDataToResult data).effective.getLsbD n =
      (capWord data (n / 32)).effective.getLsbD (n % 32) := by
  rw [capDataToResult, getLsbD_wordsToMask _ _ hn, capWord]
  split <;> rfl

/-- The bits of the words that are written. -/
theorem getLsbD_capWord_write (caps : CapResult) {n : Nat} (hn : n < 64) :
    (capWord (capResultToData caps) (n / 32)).effective.getLsbD (n % 32) = caps.effective.getLsbD n ∧
      (capWord (capResultToData caps) (n / 32)).permitted.getLsbD (n % 32) =
        caps.permitted.getLsbD n ∧
      (capWord (capResultToData caps) (n / 32)).inheritable.getLsbD (n % 32) =
        caps.inheritable.getLsbD n := by
  have hsplit : ∀ m : U64, (if n / 32 = 0 then (m.setWidth 32).getLsbD (n % 32)
      else ((m >>> 32).setWidth 32).getLsbD (n % 32)) = m.getLsbD n := by
    intro m
    rw [← getLsbD_wordsToMask _ _ hn, wordsToMask_split]
  unfold capWord
  refine ⟨?_, ?_, ?_⟩
  · rw [← hsplit caps.effective]
    split <;> rfl
  · rw [← hsplit caps.permitted]
    split <;> rfl
  · rw [← hsplit caps.inheritable]
    split <;> rfl

/-- The bit is the number of a capability that the list names. -/
def Capabilities.NamesBit (names : List String) (n : Nat) : Prop :=
  ∃ c, Names names c ∧ n = c.toCapNumber

theorem Capabilities.any_toCapNumber {names : List String} {l : List CapabilityBit}
    (hmem : ∀ c, c ∈ l ↔ Names names c) (n : Nat) :
    (l.any fun c => decide (n = c.toCapNumber)) = true ↔ NamesBit names n := by
  simp only [List.any_eq_true, decide_eq_true_eq, hmem, NamesBit]

section

variable {caps : Capabilities} {drops raises : List CapabilityBit}

/-- The bits of the sets that `apply_capabilities` asks for. -/
theorem getLsbD_newCaps (hdrops : ∀ c, c ∈ drops ↔ Capabilities.Names (caps.drop.getD []) c)
    (hraises : ∀ c, c ∈ raises ↔ Capabilities.Names (caps.raise.getD []) c)
    (current : CapResult) (n : Nat) :
    (newCaps current drops raises).effective.getLsbD n = true ↔
      Capabilities.NamesBit (caps.raise.getD []) n ∨
        current.effective.getLsbD n = true ∧ ¬ Capabilities.NamesBit (caps.drop.getD []) n := by
  rw [newCaps, CapabilityBit.getLsbD_setBits, CapabilityBit.getLsbD_clearBits, Bool.or_eq_true,
    Bool.and_eq_true, Bool.not_eq_true', ← Bool.not_eq_true, Capabilities.any_toCapNumber hraises n,
    Capabilities.any_toCapNumber hdrops n, or_comm]

/-- In each of the three sets a bit is set if `raise` names it, or if it was read in the effective
    set and `drop` does not name it. -/
theorem capset_words (hdrops : ∀ c, c ∈ drops ↔ Capabilities.Names (caps.drop.getD []) c)
    (hraises : ∀ c, c ∈ raises ↔ Capabilities.Names (caps.raise.getD []) c)
    (read : CapInternalData × CapInternalData) : ∀ n < 64, ∀ set,
      set = CapInternalData.effective ∨ set = CapInternalData.permitted ∨
        set = CapInternalData.inheritable →
      ((set (capWord (capResultToData (newCaps (capDataToResult read) drops raises))
          (n / 32))).getLsbD (n % 32) = true ↔
        Capabilities.NamesBit (caps.raise.getD []) n ∨
          (capWord read (n / 32)).effective.getLsbD (n % 32) = true ∧
            ¬ Capabilities.NamesBit (caps.drop.getD []) n) := by
  intro n hn set hset
  -- The three sets are written from the same words
  obtain ⟨he, hp, hi⟩ := getLsbD_capWord_write (newCaps (capDataToResult read) drops raises) hn
  have hbits := getLsbD_newCaps hdrops hraises (capDataToResult read) n
  rw [getLsbD_effective_read read hn] at hbits
  rcases hset with rfl | rfl | rfl
  · rw [he]
    exact hbits
  · rw [hp]
    exact hbits
  · rw [hi]
    exact hbits

end

end Styrolite
