/-!
# Powers of two and ten

The two powers that the number formats are made of.  The key facts: they are positive (`twoPow_pos`,
`tenPow_pos`) and take sums of exponents to products (`twoPow_add`).
-/

namespace PropertyGraph

def twoPow (n : Nat) : Nat := Nat.pow 2 n

def tenPow (n : Nat) : Nat := Nat.pow 10 n

theorem twoPow_zero : twoPow 0 = 1 := rfl

theorem twoPow_succ (n : Nat) : twoPow (n + 1) = 2 * twoPow n := Nat.mul_comm _ _

theorem twoPow_pos (n : Nat) : 0 < twoPow n := Nat.two_pow_pos n

theorem tenPow_pos (n : Nat) : 0 < tenPow n := Nat.pow_pos (by decide)

theorem twoPow_add (m n : Nat) : twoPow (m + n) = twoPow m * twoPow n := Nat.pow_add 2 m n

end PropertyGraph
