/-!
# Powers of two and ten

The powers that number formats are made of, as functions on natural numbers.
-/
namespace SelectRouting

def twoPow (n : Nat) : Nat :=
  Nat.pow 2 n

def tenPow (n : Nat) : Nat :=
  Nat.pow 10 n

theorem twoPow_pos (n : Nat) : 0 < twoPow n :=
  Nat.pow_pos (by decide)

end SelectRouting
