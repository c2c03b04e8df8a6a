/-!
Powers of two and of ten.
-/

namespace SpriteStage

def twoTo (n : Nat) : Nat := Nat.pow 2 n

def tenTo (n : Nat) : Nat := Nat.pow 10 n

theorem twoTo_pos (n : Nat) : 0 < twoTo n := Nat.two_pow_pos n

theorem twoTo_succ (n : Nat) : twoTo (n + 1) = 2 * twoTo n := by
  show Nat.pow 2 n * 2 = 2 * Nat.pow 2 n
  exact Nat.mul_comm _ _

theorem tenTo_succ (n : Nat) : tenTo (n + 1) = 10 * tenTo n := by
  show Nat.pow 10 n * 10 = 10 * Nat.pow 10 n
  exact Nat.mul_comm _ _

end SpriteStage
