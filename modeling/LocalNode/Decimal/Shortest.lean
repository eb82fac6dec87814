/-!
The shortest decimal that reads back as a given binary fraction.

A positive double is `m * 2 ^ q`. The reals that round to it form an interval around it, whose ends
belong to it exactly if `m` is even. On the grid of decimals with `n` digits the candidates are the
two neighbours of the value, since if any point of the grid lies in the interval then so does one of
them. The first grid with a hit gives the digits; of two hits the nearer one is taken, and of two
equally near ones the even one. All comparisons are between natural numbers.
-/

namespace LocalNode.Decimal

/-- A positive decimal: `0.d₁d₂…dₙ * 10 ^ point` for the digits `d₁d₂…dₙ`. -/
structure Positive where
  digits : List Char
  point : Int

/-- A positive binary fraction `m * 2 ^ q`, where `low` tells that the next smaller one is only half
as far away as the next larger one. -/
structure Binary where
  m : Nat
  q : Int
  low : Bool

/-- The parts of a positive double with the given exponent and fraction fields. Above the smallest
exponent a bit beyond the fraction is implied. -/
def Binary.ofFields (exponent fraction : Nat) : Binary :=
  if exponent = 0 then ⟨fraction, -1074, false⟩
  else ⟨fraction + 4503599627370496, exponent - 1075, fraction = 0 && 1 < exponent⟩

/-- The number of zeros between the point and the first digit of the fraction `num / den < 1`. -/
def leadingZeros (num den : Nat) : (fuel : Nat) → Nat
  | 0 => 0
  | fuel + 1 => if den ≤ 10 * num then 0 else leadingZeros (10 * num) den fuel + 1

/-- The place of the point in `num / den`: the value lies between `10 ^ (point - 1)` and
`10 ^ point`. No double has more than 324 zeros behind its point. -/
def pointOf (num den : Nat) : Int :=
  if den ≤ num then (Nat.toDigits 10 (num / den)).length
  else -(leadingZeros num den 324 : Int)

/-- Of the two neighbours of `value / den` on the grid of whole numbers, the one that lies between
`lo / den` and `hi / den` and is nearest; of two equally near ones the even one. -/
def nearestBetween (lo value hi den : Nat) (closed : Bool) : Option Nat :=
  let floor := value / den
  let inside := fun d =>
    if closed then lo ≤ d * den && d * den ≤ hi else lo < d * den && d * den < hi
  let below := value - floor * den
  let above := (floor + 1) * den - value
  match inside floor, inside (floor + 1) with
  | false, false => none
  | true, false => some floor
  | false, true => some (floor + 1)
  | true, true =>
    if below < above || (below = above && floor % 2 = 0) then some floor else some (floor + 1)

/-- Removes the zeros at the end of a list of digits. -/
def trimZeros (digits : List Char) : List Char :=
  (digits.reverse.dropWhile (· = '0')).reverse

/-- Tries the grids with `n`, `n + 1`, … digits. -/
def shortestFrom (lo value hi den : Nat) (point : Int) (closed : Bool) (n : Nat) :
    (fuel : Nat) → Positive
  | 0 => ⟨[], point⟩
  | fuel + 1 =>
    let up := Nat.pow 10 (n - point).toNat
    let down := Nat.pow 10 (point - n).toNat
    match nearestBetween (lo * up) (value * up) (hi * up) (den * down) closed with
    | none => shortestFrom lo value hi den point closed (n + 1) fuel
    | some d =>
      let digits := Nat.toDigits 10 d
      ⟨trimZeros digits, point + digits.length - n⟩

/-- The shortest decimal that rounds to a positive binary fraction. Seventeen digits tell any two
doubles apart. -/
def shortest (b : Binary) : Positive :=
  let scale := Nat.pow 2 (b.q - 2).toNat
  let den := Nat.pow 2 (2 - b.q).toNat
  let value := 4 * b.m * scale
  let lo := (4 * b.m - if b.low then 1 else 2) * scale
  let hi := (4 * b.m + 2) * scale
  shortestFrom lo value hi den (pointOf value den) (b.m % 2 = 0) 1 17

end LocalNode.Decimal
