/-!
# Shortest decimals of binary64 reals

Among the decimals that round to a given binary64 number, the printed one has the fewest digits,
and of those the nearest. The reals that round to `m * 2 ^ q` form an interval whose ends belong
to it exactly when `m` is even. A decimal grid with a point in that interval has one of the two
grid neighbours of the number in it, so testing these two for 1, 2, … 17 digits finds the
answer. Everything is exact arithmetic on natural numbers.
-/

namespace ModelPreview

/-- The number `digits * 10 ^ exponent`. -/
structure Decimal where
  digits : Nat
  exponent : Int
  deriving DecidableEq

/-- The finite binary64 number `±mantissa * 2 ^ exponent`. At a `boundary` the next smaller
number is only half as far away as the next larger one. -/
structure Binary64 where
  negative : Bool
  mantissa : Nat
  exponent : Int
  boundary : Bool
  deriving DecidableEq

namespace Binary64

/-- The number held by 64 bits: a sign, eleven bits of exponent and 52 bits of fraction. -/
def ofBits (bits : UInt64) : Binary64 :=
  let n := bits.toNat
  let fraction : Nat := n % Nat.pow 2 52
  let field : Nat := n / Nat.pow 2 52 % Nat.pow 2 11
  if field = 0 then
    { negative := n / Nat.pow 2 63 = 1
      mantissa := fraction
      exponent := -1074
      boundary := false }
  else
    { negative := n / Nat.pow 2 63 = 1
      mantissa := Nat.pow 2 52 + fraction
      exponent := (field : Int) - 1075
      boundary := fraction = 0 && field ≠ 1 }

end Binary64

namespace Decimal

/-- A fraction of natural numbers, with a denominator above zero wherever it is made here. -/
structure Fraction where
  num : Nat
  den : Nat

/-- `f * base ^ k`. -/
def Fraction.scale (f : Fraction) (base : Nat) (k : Int) : Fraction :=
  if 0 ≤ k then { f with num := f.num * Nat.pow base k.toNat }
  else { f with den := f.den * Nat.pow base (-k).toNat }

def Fraction.le (f g : Fraction) : Bool :=
  f.num * g.den ≤ g.num * f.den

def Fraction.lt (f g : Fraction) : Bool :=
  f.num * g.den < g.num * f.den

def Fraction.ofNat (n : Nat) : Fraction :=
  ⟨n, 1⟩

/-- How many decimal digits a natural number has. -/
def digitCount (n : Nat) : Nat :=
  (Nat.toDigits 10 n).length

/-- The power of ten that leads a fraction above zero: the largest `e` with `10 ^ e ≤ f`. -/
def Fraction.leadingPower (f : Fraction) : Int :=
  let e : Int := (digitCount f.num : Int) - digitCount f.den
  if (Fraction.ofNat 1).scale 10 e |>.le f then e else e - 1

/-- The point with the fewest digits among the grid neighbours of `value` inside the interval, the
nearer of the two where both are inside, and the one with the even last digit where both are
equally near. -/
def nearestInside? (inside : Fraction → Bool) (value : Fraction) (exponent : Int) :
    Option Decimal :=
  let scaled := value.scale 10 (-exponent)
  let below := scaled.num / scaled.den
  let point (d : Nat) : Fraction := (Fraction.ofNat d).scale 10 exponent
  let low := inside (point below)
  let high := inside (point (below + 1))
  let twiceRest := 2 * (scaled.num % scaled.den)
  let nearerBelow := twiceRest < scaled.den || (twiceRest = scaled.den && below % 2 = 0)
  if low && (!high || nearerBelow) then some ⟨below, exponent⟩
  else if high then some ⟨below + 1, exponent⟩
  else none

/-- The same number without zeros at the end of its digits. -/
def trim (d : Decimal) : Nat → Decimal
  | 0 => d
  | fuel + 1 =>
    if d.digits ≠ 0 ∧ d.digits % 10 = 0 then trim ⟨d.digits / 10, d.exponent + 1⟩ fuel else d

/-- The shortest decimal that reads back as `b`, leaving the sign aside. -/
def shortest (b : Binary64) : Decimal :=
  if b.mantissa = 0 then ⟨0, 0⟩
  else
    -- four times the number and its half-way points, so that all of them are whole
    let quarter (n : Nat) : Fraction := (Fraction.ofNat n).scale 2 (b.exponent - 2)
    let value := quarter (4 * b.mantissa)
    let low := quarter (4 * b.mantissa - if b.boundary then 1 else 2)
    let high := quarter (4 * b.mantissa + 2)
    let inside (f : Fraction) : Bool :=
      if b.mantissa % 2 = 0 then low.le f && f.le high else low.lt f && f.lt high
    let lead := value.leadingPower
    let found := (List.range 17).findSome? fun n : Nat => nearestInside? inside value (lead - n)
    (found.getD ⟨b.mantissa, 0⟩).trim 20

/-- Where a decimal is written without an exponent: `positional p` for a number whose point stands
after `p` of its digits (`p` may be negative or beyond the last digit). -/
structure Style where
  positional : Int → Bool

/-- Numbers in JSON text: positional from `0.00001` up to sixteen digits before the point. -/
def Style.json : Style :=
  ⟨fun p => decide (-5 < p) && decide (p ≤ 16)⟩

/-- Numbers in prose: never an exponent. -/
def Style.plain : Style :=
  ⟨fun _ => true⟩

def zeros (n : Nat) : String :=
  String.ofList (List.replicate n '0')

/-- The text of a decimal, with at least one digit on either side of the point. -/
def text (style : Style) (d : Decimal) : String :=
  let digits := Nat.toDigits 10 d.digits
  let count := digits.length
  let p : Int := count + d.exponent
  if d.digits = 0 then "0.0"
  else if style.positional p then
    if 0 ≤ d.exponent then String.ofList digits ++ zeros d.exponent.toNat ++ ".0"
    else if 0 < p then
      String.ofList (digits.take p.toNat) ++ "." ++ String.ofList (digits.drop p.toNat)
    else "0." ++ zeros (-p).toNat ++ String.ofList digits
  else
    let rest := digits.drop 1
    String.ofList (digits.take 1) ++ (if rest.isEmpty then "" else "." ++ String.ofList rest) ++
      "e" ++ toString (p - 1)

end Decimal

/-- The shortest text of a finite real that reads back as the same number. -/
def Binary64.text (style : Decimal.Style) (b : Binary64) : String :=
  (if b.negative then "-" else "") ++ (Decimal.shortest b).text style

end ModelPreview
