/-!
# Componentry.Double

Nonnegative numbers in double precision. A double is held exactly, as a multiple of the least
positive one, so that arithmetic on it is arithmetic on natural numbers followed by one rounding:
`Double.round` takes the nearest double, and of two that are equally near the one with the even
significand.
-/

namespace Componentry

/-- The number `units / 2 ^ 1074`. From `2 ^ 1024` on it stands for infinity. -/
structure Double where
  units : Nat
deriving DecidableEq, Repr

namespace Double

/-- The whole number nearest to `num / den`, the even one if there are two. -/
def nearest (num den : Nat) : Nat :=
  let q := num / den
  let r := num % den
  if 2 * r < den then q
  else if den < 2 * r then q + 1
  else q + q % 2

/-- The double nearest to `num / den` units. Doubles of 53 binary digits stand next to each other at
the distance of their last digit, and none are closer than one unit. -/
def round (num den : Nat) : Double :=
  let spacing := Nat.pow 2 ((num / den).log2 - 52)
  ⟨nearest num (den * spacing) * spacing⟩

def ofNat (n : Nat) : Double := round (n * Nat.pow 2 1074) 1

def mul (a b : Double) : Double := round (a.units * b.units) (Nat.pow 2 1074)

/-- The quotient by a double other than zero. -/
def div (a b : Double) : Double := round (a.units * Nat.pow 2 1074) b.units

def isZero (a : Double) : Bool := a.units == 0

def isFinite (a : Double) : Bool := a.units < Nat.pow 2 (1024 + 1074)

end Double

end Componentry
