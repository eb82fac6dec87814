import LocalNode.Decimal.Shortest

/-!
JSON numbers.

A literal without a point and without an exponent is an integer as long as it fits 64 bits, signed
if it has a minus sign and unsigned otherwise. Every other literal, minus zero among them, is a
double. The two kinds never compare equal, and each prints in a way that reads back as its own kind.
-/

namespace LocalNode.Json

/-- A number: an integer of 64 bits, or the bits of a double. -/
inductive Number where
  | int (value : Int)
  | float (bits : UInt64)
  deriving DecidableEq, Repr

namespace Number

/-- The value as an unsigned 64-bit integer. A double is none, whatever its value. -/
def toUInt64? : Number → Option UInt64
  | .int value => if 0 ≤ value ∧ value < UInt64.size then some (UInt64.ofNat value.toNat) else none
  | .float _ => none

/-! ### Printing -/

/-- How doubles are laid out: the places of the point for which all digits are written out, from
`firstPoint` to `lastPoint`. Elsewhere a power of ten follows, with its sign. -/
structure FloatLayout where
  firstPoint : Int
  lastPoint : Int

/-- Doubles from `0.00001` up to sixteen digits before the point are written out. -/
def layout : FloatLayout := ⟨-4, 16⟩

/-- A power of ten behind the digits. -/
def powerOfTen (n : Int) : String :=
  if n < 0 then "e-" ++ toString n.natAbs else "e+" ++ toString n.natAbs

/-- Lays out the digits of a positive decimal. A whole number keeps a zero behind its point. -/
def writePositive (l : FloatLayout) (d : Decimal.Positive) : String :=
  let text := String.ofList d.digits
  let zeros := fun n => String.ofList (List.replicate n '0')
  if l.firstPoint ≤ d.point ∧ d.point ≤ l.lastPoint then
    if d.point ≤ 0 then "0." ++ zeros d.point.natAbs ++ text
    else if d.digits.length ≤ d.point.natAbs then
      text ++ zeros (d.point.natAbs - d.digits.length) ++ ".0"
    else
      String.ofList (d.digits.take d.point.natAbs) ++ "." ++
        String.ofList (d.digits.drop d.point.natAbs)
  else
    let first := String.ofList (d.digits.take 1)
    let rest := d.digits.drop 1
    let fraction := if rest.isEmpty then "" else "." ++ String.ofList rest
    first ++ fraction ++ powerOfTen (d.point - 1)

/-- The text of the double with the given bits: the sign, eleven bits of exponent and fifty-two bits
of fraction. A double that is not finite has no literal. -/
def writeFloat (bits : UInt64) : String :=
  let sign := if bits >>> 63 = 0 then "" else "-"
  let exponent := (bits >>> 52 &&& 0x7ff).toNat
  let fraction := (bits &&& 0xfffffffffffff).toNat
  if exponent = 2047 then "null"
  else if exponent = 0 ∧ fraction = 0 then sign ++ "0.0"
  else sign ++ writePositive layout (Decimal.shortest (.ofFields exponent fraction))

/-- The text of a number. -/
def write : Number → String
  | .int value => toString value
  | .float bits => writeFloat bits

/-! ### Reading -/

/-- The parts of a literal: its sign, the digits before and behind the point, and the power of ten
that follows. -/
structure Literal where
  negative : Bool
  whole : List Nat
  fraction : Option (List Nat)
  power : Option Int

/-- The largest significand that is kept exactly. -/
def maxSignificand : Nat := 18446744073709551615

/-- Appends whole digits to a significand while it fits 64 bits. Each digit from the first one that
does not fit only shifts the point. -/
def takeWhole : Nat → List Nat → Nat × Nat
  | acc, [] => (acc, 0)
  | acc, d :: ds =>
    if 10 * acc + d ≤ maxSignificand then takeWhole (10 * acc + d) ds else (acc, ds.length + 1)

/-- Appends digits behind the point while the significand fits 64 bits, and counts them. -/
def takeFraction : Nat → List Nat → Nat × Nat
  | acc, [] => (acc, 0)
  | acc, d :: ds =>
    if 10 * acc + d ≤ maxSignificand then
      let (acc, count) := takeFraction (10 * acc + d) ds
      (acc, count + 1)
    else (acc, 0)

/-- Scales a double by a power of ten in steps that a double can hold. A result that is too large
has no value. -/
def scaleByTen (f : Float) (power : Int) : (fuel : Nat) → Option Float
  | 0 => some f
  | fuel + 1 =>
    if power.natAbs ≤ 308 then
      let ten := Float.ofScientific 1 false power.natAbs
      if 0 ≤ power then
        let scaled := f * ten
        if scaled.isInf then none else some scaled
      else some (f / ten)
    else if f == 0 then some f
    else if 0 ≤ power then none
    else scaleByTen (f / Float.ofScientific 1 false 308) (power + 308) fuel

/-- A double from its sign, significand and power of ten. Three divisions by the largest power of
ten exhaust any significand of 64 bits. -/
def floatOf (negative : Bool) (significand : Nat) (power : Int) : Option Number :=
  (scaleByTen (UInt64.ofNat significand).toFloat power 4).map fun f =>
    .float (if negative then -f else f).toBits

/-- The number that a literal stands for. -/
def ofLiteral (l : Literal) : Option Number :=
  let (significand, shift) := takeWhole 0 l.whole
  match l.fraction, l.power with
  | none, none =>
    if shift ≠ 0 then floatOf l.negative significand shift
    else if !l.negative then some (.int significand)
    else if significand = 0 ∨ 9223372036854775808 < significand then floatOf true significand 0
    else some (.int (-significand))
  | fraction, power =>
    let (significand, places) := takeFraction significand (fraction.getD [])
    floatOf l.negative significand (shift - places + power.getD 0)

end Number

end LocalNode.Json
