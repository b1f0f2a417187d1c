import Styrolite.ForStd.Fields
import Styrolite.Native.Styrojail

/-!
# The parsers of `styrojail`

`parse_mount` and `parse_resource_limit` accept what is printed for a mount or a
limit that can be given, and nothing else, so that parsing undoes printing
(`styrojail_parsers`).
-/

namespace Styrolite

open Fields

/-- A text that is not empty and does not contain the separator. -/
def IsField (sep : Char) (s : String) : Prop := s ≠ "" ∧ sep ∉ s.toList

/-- `hostpath:jailpath`, with `:rw` for a mount that may be written to. -/
def CliMountSpec.print (m : CliMountSpec) : String :=
  m.hostpath ++ ":" ++ m.jailpath ++ if m.readWrite then ":rw" else ""

def ResourceLimit.print (l : ResourceLimit) : String := l.key ++ "=" ++ l.value

theorem ofList_ne_empty {cs : List Char} : String.ofList cs ≠ "" ↔ cs ≠ [] := by
  rw [ne_eq, ← String.toList_inj, String.toList_ofList]
  rfl

theorem isField_ofList {sep : Char} {cs : List Char} :
    IsField sep (String.ofList cs) ↔ cs ≠ [] ∧ sep ∉ cs := by
  rw [IsField, ofList_ne_empty, String.toList_ofList]

/-- The pieces of a mount that is printed. -/
theorem splitOn_print {m : CliMountSpec} (hhost : IsField ':' m.hostpath)
    (hjail : IsField ':' m.jailpath) : m.print.toList.splitOn ':' =
      m.hostpath.toList :: m.jailpath.toList :: if m.readWrite then [['r', 'w']] else [] := by
  rw [splitOn_eq_iff]
  refine ⟨List.cons_ne_nil _ _, ?_, ?_⟩
  · intro l hl
    rcases List.mem_cons.1 hl with rfl | hl
    · exact hhost.2
    · rcases List.mem_cons.1 hl with rfl | hl
      · exact hjail.2
      · split at hl
        · rw [List.mem_singleton.1 hl]
          decide
        · cases hl
  · cases hrw : m.readWrite <;> simp [CliMountSpec.print, hrw]

theorem parseMount_eq_ok {s : String} {m : CliMountSpec} :
    parseMount s = .ok m ↔ IsField ':' m.hostpath ∧ IsField ':' m.jailpath ∧ s = m.print := by
  constructor
  · intro hparse
    unfold parseMount at hparse
    split at hparse
    · next hostpath jailpath parts hsplit =>
      obtain ⟨-, hno, hs⟩ := splitOn_eq_iff.1 hsplit
      split at hparse
      · cases hparse
      · next hlength =>
        split at hparse
        · cases hparse
        · next hne =>
          rw [not_or] at hne
          have hhost : IsField ':' (String.ofList hostpath) :=
            isField_ofList.2 ⟨hne.1, hno _ List.mem_cons_self⟩
          have hjail : IsField ':' (String.ofList jailpath) :=
            isField_ofList.2 ⟨hne.2, hno _ (List.mem_cons_of_mem _ List.mem_cons_self)⟩
          -- Two fields, or three of which the last is the mode
          cases parts with
          | nil =>
            cases hparse
            refine ⟨hhost, hjail, String.toList_inj.1 ?_⟩
            simp [CliMountSpec.print, hs]
          | cons mode rest =>
            obtain rfl : rest = [] := by
              cases rest with
              | nil => rfl
              | cons _ _ => exact absurd (by simp) hlength
            rw [List.head?_cons] at hparse
            dsimp only at hparse
            split at hparse
            · next hmode =>
              cases hparse
              refine ⟨hhost, hjail, String.toList_inj.1 ?_⟩
              simp [CliMountSpec.print, hs, hmode]
            · cases hparse
    · cases hparse
  · rintro ⟨hhost, hjail, rfl⟩
    -- Conversely the fields are read back from the text they are joined to
    have hhost' : m.hostpath.toList ≠ [] := fun heq => hhost.1 (String.toList_inj.1 heq)
    have hjail' : m.jailpath.toList ≠ [] := fun heq => hjail.1 (String.toList_inj.1 heq)
    rw [parseMount, splitOn_print hhost hjail]
    obtain ⟨host, jail, rw⟩ := m
    cases rw with
    | false => simp [hhost', hjail']
    | true => simp [hhost', hjail']

theorem splitOnce_eq_some {sep : Char} {cs k v : List Char} :
    splitOnce sep cs = some (k, v) ↔ sep ∉ k ∧ cs = k ++ sep :: v := by
  constructor
  · intro hsplit
    have happend := cs.takeWhile_append_dropWhile (p := (· ≠ sep))
    have hhead := cs.head_dropWhile_not (· ≠ sep)
    unfold splitOnce at hsplit
    split at hsplit
    · cases hsplit
    · next d rest hdrop =>
      cases hsplit
      simp only [hdrop] at happend hhead
      -- What `dropWhile` stops at is the separator
      have hd : d = sep := by
        have := hhead (List.cons_ne_nil _ _)
        rw [List.head_cons, decide_eq_false_iff_not, not_not] at this
        exact this
      subst hd
      refine ⟨fun hmem => ?_, happend.symm⟩
      have hfree := List.all_eq_true.1 (List.all_takeWhile (p := (· ≠ d)) (l := cs)) d hmem
      simp at hfree
  · rintro ⟨hno, rfl⟩
    -- Conversely no character before the separator stops it
    have hfree : ∀ c ∈ k, decide (c ≠ sep) = true := by
      intro c hc
      exact decide_eq_true fun heq => hno (heq ▸ hc)
    unfold splitOnce
    rw [List.dropWhile_append_of_pos hfree, List.takeWhile_append_of_pos hfree]
    simp

theorem parseResourceLimit_eq_ok {s : String} {l : ResourceLimit} :
    parseResourceLimit s = .ok l ↔ IsField '=' l.key ∧ s = l.print := by
  constructor
  · intro hparse
    unfold parseResourceLimit at hparse
    split at hparse
    · cases hparse
    · next k v hsplit =>
      obtain ⟨hno, hs⟩ := splitOnce_eq_some.1 hsplit
      split at hparse
      · cases hparse
      · next hk =>
        cases hparse
        refine ⟨isField_ofList.2 ⟨hk, hno⟩, String.toList_inj.1 ?_⟩
        simp [ResourceLimit.print, hs]
  · rintro ⟨hkey, rfl⟩
    have hkey' : l.key.toList ≠ [] := fun heq => hkey.1 (String.toList_inj.1 heq)
    -- Conversely the first separator is the one after the key
    have hsplit : splitOnce '=' l.print.toList = some (l.key.toList, l.value.toList) := by
      rw [splitOnce_eq_some]
      exact ⟨hkey.2, by simp [ResourceLimit.print]⟩
    unfold parseResourceLimit
    rw [hsplit]
    simp [hkey']

/-- What the parsers accept, and what a mount given so is turned into. -/
theorem styrojail_parsers :
    (∀ s m, parseMount s = .ok m ↔ IsField ':' m.hostpath ∧ IsField ':' m.jailpath ∧ s = m.print) ∧
      (∀ s l, parseResourceLimit s = .ok l ↔ IsField '=' l.key ∧ s = l.print) ∧
      ∀ m, (toStyroliteMount m).readOnly = true ↔ m.print = m.hostpath ++ ":" ++ m.jailpath := by
  refine ⟨fun _ _ => parseMount_eq_ok, fun _ _ => parseResourceLimit_eq_ok, fun m => ?_⟩
  rw [← String.toList_inj]
  cases hrw : m.readWrite with
  | false => simp [toStyroliteMount, CliMountSpec.print, hrw]
  | true => simp [toStyroliteMount, CliMountSpec.print, hrw]

end Styrolite
