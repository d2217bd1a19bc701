import ModelPreview.Json.Basic
import ModelPreview.Json.Decimal

/-!
# Numerals of JSON text

A numeral is its written parts: sign, whole digits, fraction digits and power of ten. A whole
numeral of the 64-bit ranges is an integer, with the exception of `-0`. Every other one is a real:
its leading digits, as many as 64 bits hold, scaled by a power of ten in binary64 arithmetic. A
real beyond the finite range is no number.
-/

namespace ModelPreview

/-- The written parts of a number. -/
structure Numeral where
  negative : Bool
  whole : List Char
  fraction : List Char
  /-- The written power of ten, with the sign apart from the digits. -/
  power : Option (Bool × List Char)

namespace Numeral

/-- The value of one decimal digit. -/
def digitValue (c : Char) : Nat :=
  c.toNat - '0'.toNat

/-- The value of a run of decimal digits. -/
def digitsValue (digits : List Char) : Nat :=
  digits.foldl (fun n c => 10 * n + digitValue c) 0

/-- Append digits to a significand while it fits in 64 bits; also how many were taken. -/
def absorb (significand : Nat) : List Char → Nat × Nat
  | [] => (significand, 0)
  | c :: rest =>
    let next := 10 * significand + digitValue c
    if next < Nat.pow 2 64 then
      let (s, taken) := absorb next rest
      (s, taken + 1)
    else (significand, 0)

/-- Leading digits and the power of ten that they are scaled by, the written power aside. -/
def significand (n : Numeral) : Nat × Int :=
  let (s, taken) := absorb 0 n.whole
  let dropped := n.whole.length - taken
  let (s, places) := absorb s n.fraction
  (s, (dropped : Int) - places)

/-- Powers of ten are exact to the nearest binary64 number up to this exponent. -/
def largestPower : Nat := 308

/-- `f * 10 ^ e`, for exponents below the finite range in steps. Four steps take every 64-bit
significand to zero. -/
def scaleDown (f : Float) (e : Nat) : Nat → Float
  | 0 => 0
  | steps + 1 =>
    if e ≤ largestPower then f / Float.ofScientific 1 false e
    else scaleDown (f / Float.ofScientific 1 false largestPower) (e - largestPower) steps

/-- `s * 10 ^ e` as a finite real. -/
def scale? (s : Nat) (e : Int) : Option Float :=
  let f := (UInt64.ofNat s).toFloat
  if s = 0 then some 0
  else if e < 0 then some (scaleDown f (-e).toNat 4)
  else if e.toNat ≤ largestPower then
    let scaled := f * Float.ofScientific 1 false e.toNat
    if scaled.isInf then none else some scaled
  else none

/-- The written power of ten as an exponent. -/
def powerValue (n : Numeral) : Int :=
  match n.power with
  | none => 0
  | some (negative, digits) =>
    if negative then -(digitsValue digits : Int) else digitsValue digits

/-- The real that a numeral stands for, if it is finite. -/
def real? (n : Numeral) : Option JsonNumber :=
  let (s, e) := n.significand
  (scale? s (e + n.powerValue)).map fun f =>
    .real (if n.negative then -f else f).toBits

/-- The number that a numeral stands for. -/
def value? (n : Numeral) : Option JsonNumber :=
  if n.fraction.isEmpty && n.power.isNone then
    let magnitude := digitsValue n.whole
    if n.negative then
      if 0 < magnitude ∧ magnitude ≤ Nat.pow 2 63 then some (.integer (-(magnitude : Int)))
      else n.real?
    else if magnitude < Nat.pow 2 64 then some (.integer magnitude)
    else n.real?
  else n.real?

end Numeral

/-- The text of a number: digits for an integer, the shortest decimal for a real. -/
def JsonNumber.text (style : Decimal.Style) : JsonNumber → String
  | .integer value => toString value
  | .real bits => (Binary64.ofBits bits).text style

end ModelPreview
