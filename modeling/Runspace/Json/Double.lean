/-!
# Doubles — shortest decimal text and decimal reading

A double is named by its sixty-four bits. Written, it gets the fewest digits that only this double
is nearest to; read, a decimal goes through one rounding of its digits and one scaling by a power
of ten.

* `Double.split`: sign, mantissa `m` and exponent `q` of the value `m * 2^q`;
* `Double.shortest`: the coarsest decimal grid with a point that reads back, and that point;
* `Double.layout`: where the decimal point goes, and when an exponent is written;
* `Double.ofDecimal?`: the double of `m * 10^e`, if there is one in range.
-/

namespace Runspace

namespace Double

/-! ## The value of the bits -/

/-- The bit `2^52`, which every mantissa has but those of the smallest doubles. -/
def hiddenBit : Nat := 4503599627370496

/-- Sign, mantissa `m` and exponent `q` of the double with these bits: its size is `m * 2^q`. -/
def split (bits : UInt64) : Bool × Nat × Int :=
  let n := bits.toNat
  let negative := 9223372036854775808 ≤ n
  let biased : Nat := n / hiddenBit % 2048
  let fraction : Nat := n % hiddenBit
  if biased = 0 then (negative, fraction, -1074)
  else (negative, fraction + hiddenBit, (biased : Int) - 1075)

/-! ## Shortest digits -/

/-- `10^k` over `2^r` as a fraction of two natural numbers. -/
def ratio (k r : Int) : Nat × Nat :=
  (Nat.pow 10 k.toNat * Nat.pow 2 (-r).toNat, Nat.pow 10 (-k).toNat * Nat.pow 2 r.toNat)

/-- The point of the decimal grid `10^k` that reads back as `m * 2^q` and is nearest to it (of two
equally near ones the even), if there is one. The numbers that read back reach from half a step
below to half a step above; the step below a power of two is half as wide; the ends belong to it
if the mantissa is even. All sizes are compared in quarters of a step. -/
def gridPoint? (m : Nat) (q k : Int) : Option Nat :=
  let (num, den) := ratio k (q - 2)
  let low := if m = hiddenBit ∧ q ≠ -1074 then 4 * m - 1 else 4 * m - 2
  let high := 4 * m + 2
  let within (d : Nat) : Bool :=
    if m % 2 = 0 then low * den ≤ d * num && d * num ≤ high * den
    else low * den < d * num && d * num < high * den
  let value := 4 * m * den
  let below := value / num
  let above := below + 1
  match within below, within above with
  | false, false => none
  | true, false => some below
  | false, true => some above
  | true, true =>
    let toBelow := value - below * num
    let toAbove := above * num - value
    if toBelow < toAbove then some below
    else if toAbove < toBelow then some above
    else if below % 2 = 0 then some below else some above

/-- The first grid point that reads back on the grids `10^k`, `10^(k-1)`, …, of which `count` are
tried. -/
def coarsest (m : Nat) (q : Int) : Nat → Int → Option (Nat × Int)
  | 0, _ => none
  | count + 1, k =>
    match gridPoint? m q k with
    | some d => some (d, k)
    | none => coarsest m q count (k - 1)

/-- The shortest decimal `d * 10^k` that reads back as `m * 2^q`. Every double is below `10^309`,
and the grid `10^-324` is finer than the steps between doubles. -/
def shortest (m : Nat) (q : Int) : Nat × Int := (coarsest m q 634 309).getD (0, 0)

/-! ## Layout -/

/-- The text of the decimal `d * 10^k` for a `d` above zero. A decimal from 10^-5 up to 10^16 is
written with a point and at least one digit on either side of it, any other with one digit before
the point, no point before an empty fraction, and a signed exponent. -/
def layout (d : Nat) (k : Int) : List Char :=
  let digits := Nat.toDigits 10 d
  let point : Int := digits.length + k
  if 0 ≤ k ∧ point ≤ 16 then digits ++ List.replicate k.toNat '0' ++ ['.', '0']
  else if 0 < point ∧ point ≤ 16 then
    digits.take point.toNat ++ '.' :: digits.drop point.toNat
  else if -5 < point ∧ point ≤ 0 then
    ['0', '.'] ++ List.replicate (-point).toNat '0' ++ digits
  else
    let exponent := point - 1
    let fraction := if digits.length = 1 then [] else '.' :: digits.drop 1
    digits.take 1 ++ fraction ++ ['e', if exponent < 0 then '-' else '+'] ++
      Nat.toDigits 10 exponent.natAbs

/-- The text of the double with these bits. -/
def text (bits : UInt64) : List Char :=
  let (negative, m, q) := split bits
  let size :=
    if m = 0 then ['0', '.', '0']
    else
      let (d, k) := shortest m q
      layout d k
  if negative then '-' :: size else size

/-! ## Reading -/

/-- A power of ten up to `10^308`. -/
def powerOfTen (e : Nat) : Float := Float.ofScientific 1 false e

/-- A double times a power of ten, unless the product is too large. Powers below `10^-308` are
taken in several divisions, of which the third leaves nothing. -/
def scale? : Nat → Float → Int → Option Float
  | 0, f, _ => some f
  | count + 1, f, e =>
    if e.natAbs ≤ 308 then
      if 0 ≤ e then
        let g := f * powerOfTen e.natAbs
        if g.isInf then none else some g
      else some (f / powerOfTen e.natAbs)
    else if f == 0.0 then some f
    else if 0 ≤ e then none
    else scale? count (f / powerOfTen 308) (e + 308)

/-- The bits of the double that the decimal `significand * 10^e` is read as: the significand is
rounded to a double and then scaled. A decimal that is too large is read as none. -/
def ofDecimal? (negative : Bool) (significand : UInt64) (e : Int) : Option UInt64 :=
  (scale? 4 significand.toFloat e).map fun f => (if negative then -f else f).toBits

end Double

end Runspace
