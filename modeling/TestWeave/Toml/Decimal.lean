/-!
# Decimal numbers

* `Decimal.isFinite`: whether a decimal number rounds to a finite double.
-/

namespace TestWeave.Toml

/-- The number `mantissa * 10 ^ exponent`, its sign aside. -/
structure Decimal where
  mantissa : Nat
  exponent : Int
  deriving DecidableEq, Repr

/-- The least number that rounds to an infinite double: half a step above the greatest finite
one. -/
def infinityBound : Nat := Nat.pow 2 1024 - Nat.pow 2 970

/-- The count of decimal digits of a positive number. -/
def digitCount (n : Nat) : Nat := (Nat.toDigits 10 n).length

/-- Whether a number rounds to a finite double. The count of digits before the point decides,
except where the bound has as many. -/
def Decimal.isFinite (d : Decimal) : Bool :=
  let digits : Int := digitCount d.mantissa + d.exponent
  if d.mantissa = 0 ∨ digits < digitCount infinityBound then true
  else if digits > digitCount infinityBound then false
  else d.mantissa * Nat.pow 10 d.exponent.toNat <
    infinityBound * Nat.pow 10 (-d.exponent).toNat

end TestWeave.Toml
