import Calculator.Decimal

/-!
Two ways to lay out a decimal: with the point in its place, and with an exponent.
-/

set_option autoImplicit false

namespace Calculator.Decimal

attribute [local instance (high)] instPowNat

/-- The point in its place, with at least one digit on either side: `1500.0`, `0.015`. -/
def positional (decimal : Decimal) : List Char :=
  let places := max 1 (-decimal.exponent).toNat
  let scaled := decimal.digits * 10 ^ (decimal.exponent + places).toNat
  Nat.toDigits 10 (scaled / 10 ^ places) ++
    '.' :: List.leftpad places '0' (Nat.toDigits 10 (scaled % 10 ^ places))

def signed (number : Int) : List Char :=
  (if number < 0 then ['-'] else []) ++ Nat.toDigits 10 number.natAbs

/-- One digit, the others if there are any behind a point, and the exponent that this takes:
`1e16`, `1.5e-7`. -/
def scientific (decimal : Decimal) : List Char :=
  match Nat.toDigits 10 decimal.digits with
  | [] => []
  | first :: others =>
      first :: ((if others.isEmpty then [] else '.' :: others) ++
        'e' :: signed (decimal.exponent + others.length))

end Calculator.Decimal
