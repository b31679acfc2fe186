import TreeQuery.Text.Decimal

/-
  Written numbers read back.

  Main statements:
    * `Text.readDigits?_toString`
    * `Text.isDigit_of_mem_toString`
-/

namespace TreeQuery.Text

theorem isDigit_of_mem_toString
    {n : Nat}
    {c : Char}
    (h : c ∈ (toString n).toList) :
    c.isDigit = true := by
  rw [Nat.toString_eq_repr, Nat.toList_repr] at h
  exact Nat.isDigit_of_mem_toDigits (by decide) (by decide) h

theorem toString_ne_nil (n : Nat) : (toString n).toList ≠ [] := by
  rw [Nat.toString_eq_repr, Nat.toList_repr]
  exact Nat.toDigits_ne_nil

/- The digits of a number write that number. -/
theorem readDigits?_toString (n : Nat) :
    readDigits? (toString n).toList = some n := by
  have hDigits : (toString n).toList.all Char.isDigit = true :=
    List.all_eq_true.2 fun c hMem => isDigit_of_mem_toString hMem
  have hSome : (toString n).toList.isEmpty = false :=
    List.isEmpty_eq_false_iff.2 (toString_ne_nil n)
  have hValue : digitsValue (toString n).toList = n := by
    rw [Nat.toString_eq_repr, Nat.toList_repr]
    have hRead := Nat.ofDigitChars_ten_toDigits (n := n)
    simpa [digitsValue, digitValue, Nat.ofDigitChars, Nat.mul_comm]
      using hRead
  unfold readDigits?
  rw [hDigits, hSome, hValue]
  rfl

end TreeQuery.Text
