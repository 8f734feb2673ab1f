import Componentry.Double

/-!
# Componentry.Json.Number

Numbers as they are read from their digits: a significand below `significandBound` and a power of
ten. From the first digit on that does not fit into the significand (`appendDigits`), digits matter
for the power of ten alone.

A number has its meaning in double precision (`Number.magnitude?`). It is found in few steps, each
of which rounds: the significand becomes a double, and is then multiplied or divided by a power of
ten that is a double as well. So the result need not be the double nearest to the digits. Being too
big and being zero are both said of this magnitude.
-/

namespace Componentry
namespace Json

def digitValue (c : Char) : Nat := c.toNat - '0'.toNat

def digitsValue (digits : List Char) : Nat :=
  digits.foldl (fun n c => 10 * n + digitValue c) 0

/-- What significands stay below: they have 64 binary digits. -/
def significandBound : Nat := Nat.pow 2 64

/-- Appends digits to a significand up to the first one that does not fit, and gives back that one
and all behind it. -/
def appendDigits (n : Nat) : List Char → Nat × List Char
  | [] => (n, [])
  | c :: rest =>
    if 10 * n + digitValue c < significandBound then appendDigits (10 * n + digitValue c) rest
    else (n, c :: rest)

/-- The number `± significand · 10 ^ exponent`. -/
structure Number where
  negative : Bool := false
  significand : Nat
  exponent : Int := 0
deriving DecidableEq, Repr, Inhabited

namespace Number

/-- The number with these digits before the point and behind it, times `10 ^ exponent`. Each digit
before the point that does not fit makes the exponent greater, each one behind it that fits makes it
less. -/
def ofDigits (whole fraction : List Char) (exponent : Int) : Number :=
  let (n, wholeLeft) := appendDigits 0 whole
  let (m, fractionLeft) := appendDigits n fraction
  { significand := m
    exponent := exponent + wholeLeft.length - (fraction.length - fractionLeft.length : Nat) }

def maxPower : Nat := 308

def powerOfTen (k : Nat) : Double := .ofNat (Nat.pow 10 k)

def scaleUp? (a : Double) (k : Nat) : Option Double :=
  if a.isZero then some a
  else if maxPower < k then none
  else
    let product := a.mul (powerOfTen k)
    if product.isFinite then some product else none

/-- The quotient by `10 ^ k`. As long as `10 ^ k` itself is not finite, a power of ten is split off
from it. -/
def scaleDown (a : Double) (k : Nat) : Double :=
  if a.isZero then a
  else if maxPower < k then scaleDown (a.div (powerOfTen maxPower)) (k - maxPower)
  else a.div (powerOfTen k)
termination_by k
decreasing_by
  have : 0 < maxPower := by decide
  omega

/-- The magnitude in double precision, if it is finite. -/
def magnitude? (n : Number) : Option Double :=
  match n.exponent with
  | .ofNat k => scaleUp? (.ofNat n.significand) k
  | .negSucc k => some (scaleDown (.ofNat n.significand) (k + 1))

def isTooBig (n : Number) : Bool := n.magnitude?.isNone

/-- Whether the magnitude is zero. Magnitudes that are too small come out as zero. -/
def isZero (n : Number) : Bool := n.magnitude?.any (·.isZero)

end Number

end Json
end Componentry
