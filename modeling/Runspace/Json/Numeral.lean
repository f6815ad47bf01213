import Runspace.Json.Basic
import Runspace.Json.Double

/-!
# Numerals — the text of a number

A numeral is an optional minus sign, digits without a leading zero, an optional fraction and an
optional exponent. An integer that fits 64 bits keeps its value; every other numeral is read as a
double.

* `Numeral.read?`: the parts of a numeral, or that the text is none;
* `Numeral.value`: its value, or `unreadable` if it is beyond the doubles;
* `Number.text`: how a number is written.
-/

namespace Runspace

/-! ## Writing -/

/-- The integer that a number is, if it is one. -/
def Number.integer? : Number → Option Int
  | .natural n => some n.toNat
  | .negative b => some (-1 - (b.val : Int))
  | .double _ => none

/-- The text of a number. -/
def Number.text : Number → List Char
  | .natural n => Nat.toDigits 10 n.toNat
  | .negative b => '-' :: Nat.toDigits 10 (b.val + 1)
  | .double bits => Double.text bits

/-! ## Digits -/

/-- The value of a decimal digit. -/
def digitValue (c : Char) : Nat := c.toNat - 48

/-- The value of a list of decimal digits. -/
def digitsValue (ds : List Char) : Nat := ds.foldl (fun n c => n * 10 + digitValue c) 0

/-- The digits at the front of a text. -/
def digitsOf (cs : List Char) : List Char := cs.takeWhile Char.isDigit

/-- The text after its leading digits. -/
def afterDigits (cs : List Char) : List Char := cs.dropWhile Char.isDigit

/-! ## Parts -/

/-- The parts of a numeral. -/
structure Numeral where
  negative : Bool
  whole : List Char
  fraction : Option (List Char)
  exponent : Option Int

namespace Numeral

/-- Digits and the text after them; there is at least one digit. -/
def readDigits? (cs : List Char) : Option (List Char × List Char) :=
  if (digitsOf cs).isEmpty then none else some (digitsOf cs, afterDigits cs)

/-- The exponent at the front of a text, if there is one, and the text after it. -/
def readExponent? : List Char → Option (Option Int × List Char)
  | [] => some (none, [])
  | c :: cs =>
    if c = 'e' ∨ c = 'E' then
      let (negative, cs) :=
        match cs with
        | '-' :: rest => (true, rest)
        | '+' :: rest => (false, rest)
        | _ => (false, cs)
      (readDigits? cs).map fun (ds, rest) =>
        (some (if negative then -(digitsValue ds : Int) else digitsValue ds), rest)
    else some (none, c :: cs)

/-- The fraction at the front of a text, if there is one, and the text after it. -/
def readFraction? : List Char → Option (Option (List Char) × List Char)
  | '.' :: cs => (readDigits? cs).map fun (ds, rest) => (some ds, rest)
  | cs => some (none, cs)

/-- The numeral that a whole text is. -/
def read? (cs : List Char) : Option Numeral := do
  let (negative, cs) :=
    match cs with
    | '-' :: rest => (true, rest)
    | _ => (false, cs)
  let (whole, cs) ← readDigits? cs
  if 1 < whole.length ∧ whole.head? = some '0' then none
  let (fraction, cs) ← readFraction? cs
  let (exponent, cs) ← readExponent? cs
  if cs.isEmpty then some { negative, whole, fraction, exponent } else none

/-! ## Value -/

/-- The integers below this one fit 64 bits. -/
def integerBound : Nat := 18446744073709551616

/-- The digits of a numeral as they are taken into a significand below `integerBound`. -/
structure Significand where
  value : Nat := 0
  /-- The power of ten that it has yet to be multiplied by. -/
  exponent : Int := 0
  /-- Whether a digit no longer fitted, after which no further digit is taken. -/
  full : Bool := false

/-- Takes a digit before the point; one that does not fit only raises the exponent. -/
def Significand.pushWhole (s : Significand) (c : Char) : Significand :=
  let next := s.value * 10 + digitValue c
  if s.full ∨ integerBound ≤ next then { s with exponent := s.exponent + 1, full := true }
  else { s with value := next }

/-- Takes a digit after the point; one that does not fit is left out. -/
def Significand.pushFraction (s : Significand) (c : Char) : Significand :=
  let next := s.value * 10 + digitValue c
  if s.full ∨ integerBound ≤ next then { s with full := true }
  else { s with value := next, exponent := s.exponent - 1 }

/-- The double that a numeral is read as. -/
def double (n : Numeral) : Json :=
  let s := n.whole.foldl Significand.pushWhole {}
  let s := (n.fraction.getD []).foldl Significand.pushFraction { s with full := false }
  match Double.ofDecimal? n.negative (UInt64.ofNat s.value) (s.exponent + n.exponent.getD 0) with
  | some bits => .number (.double bits)
  | none => .unreadable

/-- The value of a numeral. -/
def value (n : Numeral) : Json :=
  if n.fraction.isNone ∧ n.exponent.isNone then
    let size := digitsValue n.whole
    if ¬ n.negative then
      if size < integerBound then .number (.natural (UInt64.ofNat size)) else n.double
    else
      if h : 0 < size ∧ size ≤ 9223372036854775808 then
        .number (.negative ⟨size - 1, by omega⟩)
      else n.double
  else n.double

end Numeral

end Runspace
