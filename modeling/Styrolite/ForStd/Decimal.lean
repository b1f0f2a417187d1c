import Mathlib.Data.Nat.Notation

/-!
# Decimal numbers

The number that a text of decimal digits stands for, and that rendering a number
is undone by reading it.
-/

namespace Decimal

/-- The number in decimal, if there is at least one digit and nothing else. -/
def read (cs : List Char) : Option Nat :=
  if cs ≠ [] ∧ cs.all Char.isDigit then some (Nat.ofDigitChars 10 cs 0) else none

theorem isDigit_of_mem_toString {n : Nat} {c : Char} (hc : c ∈ (toString n).toList) :
    c.isDigit = true := by
  rw [Nat.toString_eq_repr, Nat.toList_repr] at hc
  exact Nat.isDigit_of_mem_toDigits (by decide) (by decide) hc

theorem toString_ne_nil (n : Nat) : (toString n).toList ≠ [] := by
  rw [Nat.toString_eq_repr, Nat.toList_repr]
  exact Nat.toDigits_ne_nil

@[simp] theorem read_toString (n : Nat) : read (toString n).toList = some n := by
  have hdigits : (toString n).toList.all Char.isDigit = true :=
    List.all_eq_true.2 fun _ hc => isDigit_of_mem_toString hc
  rw [read, if_pos ⟨toString_ne_nil n, hdigits⟩, Nat.toString_eq_repr, Nat.toList_repr,
    Nat.ofDigitChars_ten_toDigits]

theorem toString_injective : Function.Injective (toString : Nat → String) := by
  intro m n heq
  have hread := congrArg (fun s : String => read s.toList) heq
  simp only [read_toString] at hread
  exact Option.some.inj hread

end Decimal
