/-!
# Runbook.Number.Power

Powers of two and of ten, each by its recursion (`twoTo_succ`, `tenTo_succ`).
-/

namespace Runbook

/-- Two to the given power. -/
def twoTo (n : Nat) : Nat := Nat.pow 2 n

/-- Ten to the given power. -/
def tenTo (n : Nat) : Nat := Nat.pow 10 n

theorem twoTo_succ (n : Nat) : twoTo (n + 1) = twoTo n * 2 := rfl

theorem tenTo_succ (n : Nat) : tenTo (n + 1) = tenTo n * 10 := rfl

theorem twoTo_pos (n : Nat) : 0 < twoTo n := by
  induction n with
  | zero => decide
  | succ n ih => rw [twoTo_succ]; omega

theorem tenTo_pos (n : Nat) : 0 < tenTo n := by
  induction n with
  | zero => decide
  | succ n ih => rw [tenTo_succ]; omega

end Runbook
