/-!
# Words

How many numbers a word of some bits can spell, which bounds what fits into it.
-/

namespace EventTrace

/-- The number of words of some bits. -/
def wordCount (bits : Nat) : Nat := Nat.pow 2 bits

theorem wordCount_zero : wordCount 0 = 1 := rfl

theorem wordCount_succ (bits : Nat) : wordCount (bits + 1) = 2 * wordCount bits :=
  Nat.mul_comm _ _

theorem wordCount_add (m n : Nat) : wordCount (m + n) = wordCount m * wordCount n := by
  induction n with
  | zero => rw [Nat.add_zero, wordCount_zero, Nat.mul_one]
  | succ n ih => rw [← Nat.add_assoc, wordCount_succ, wordCount_succ, ih, Nat.mul_left_comm]

theorem wordCount_pos (bits : Nat) : 0 < wordCount bits := by
  induction bits with
  | zero => decide
  | succ bits ih => rw [wordCount_succ]; omega

end EventTrace
