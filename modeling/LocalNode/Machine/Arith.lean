import LocalNode.Machine.Instr
import LocalNode.Word

/-!
The values that operators compute.

Words wrap around. Division and remainder by zero give zero. Signed operators read a word in two's
complement and work on magnitudes: quotients are cut toward zero and remainders take the sign of the
dividend. Sums and products by a modulus are taken in words of twice the width, where they do not
wrap. Shifts and byte positions are whole words, so amounts beyond the width are ordinary cases.
-/

namespace LocalNode

namespace Word

/-! ### Signs and widths -/

/-- Whether the highest bit is set, which makes a word stand for a negative number. -/
def isNegative (w : Word) : Bool :=
  w.getLsbD 255

/-- The word that makes up zero with the given one. -/
def negate (w : Word) : Word :=
  ~~~w + 1

/-- The word without its sign. The lowest number of all has no positive counterpart and stays. -/
def magnitude (w : Word) : Word :=
  if isNegative w then negate w else w

/-- A word in twice the width. -/
def widen (w : Word) : BitVec 512 :=
  w.setWidth 512

/-- The lower half of a word of twice the width. -/
def narrow (w : BitVec 512) : Word :=
  w.setWidth 256

/-- The word whose `n` lowest bits are set. -/
def lowBits (n : Nat) : Word :=
  (1 : Word) <<< n - 1

/-! ### Operations -/

/-- The quotient of a division, zero for a zero divisor. -/
def quotient (a b : Word) : Word :=
  if b = 0 then 0 else a / b

/-- The remainder of a division, zero for a zero divisor. -/
def remainder (a b : Word) : Word :=
  if b = 0 then 0 else a % b

/-- The quotient of a signed division, zero for a zero divisor. It is negative where the signs
differ. -/
def signedQuotient (a b : Word) : Word :=
  if b = 0 then 0
  else
    let q := magnitude a / magnitude b
    if isNegative a != isNegative b then negate q else q

/-- The remainder of a signed division, zero for a zero divisor. It has the sign of the dividend. -/
def signedRemainder (a b : Word) : Word :=
  if b = 0 then 0
  else
    let r := magnitude a % magnitude b
    if isNegative a then negate r else r

/-- Whether a word is less than another one, both read with their signs. -/
def signedLess (a b : Word) : Bool :=
  match isNegative a, isNegative b with
  | true, false => true
  | false, true => false
  | _, _ => a.ult b

/-- A power, by squaring: the exponent is halved until nothing is left of it. -/
def power (base : Word) (exponent : Nat) : Word :=
  if exponent = 0 then 1
  else
    let half := power base (exponent / 2)
    if exponent % 2 = 0 then half * half else base * (half * half)
termination_by exponent

/-- The sign of the byte at position `k`, counted from the lowest, spread over all higher bits. From
position 31 on the word has no higher bits. -/
def signExtend (k value : Word) : Word :=
  if 31 ≤ k.toNat then value
  else
    let bit := 8 * (k.setWidth 64).toNat + 7
    let mask := lowBits (bit + 1)
    if value.getLsbD bit then value ||| ~~~mask else value &&& mask

/-- The byte at position `i`, counted from the highest, and zero beyond the last. -/
def byte (i value : Word) : Word :=
  match i.below? 32 with
  | some i => (value >>> (8 * (31 - i))) &&& 0xff
  | none => 0

/-- Shifts to the left. -/
def shiftLeft (shift value : Word) : Word :=
  match shift.below? 256 with
  | some n => value <<< n
  | none => 0

/-- Shifts to the right, filling up with zeros. -/
def shiftRight (shift value : Word) : Word :=
  match shift.below? 256 with
  | some n => value >>> n
  | none => 0

/-- Shifts to the right, filling up with the sign. The bits of a negative word are turned over, so
that the zeros that come in turn into ones. -/
def arithmeticShiftRight (shift value : Word) : Word :=
  match shift.below? 256 with
  | some n => if isNegative value then ~~~(~~~value >>> n) else value >>> n
  | none => if isNegative value then BitVec.allOnes 256 else 0

/-- The remainder of a sum that does not wrap, zero for a zero modulus. -/
def addMod (a b n : Word) : Word :=
  if n = 0 then 0 else narrow ((widen a + widen b) % widen n)

/-- The remainder of a product that does not wrap, zero for a zero modulus. -/
def mulMod (a b n : Word) : Word :=
  if n = 0 then 0 else narrow (widen a * widen b % widen n)

end Word

namespace Machine

/-- The value of an operator on one word. -/
def UnaryOp.apply (a : Word) : UnaryOp → Word
  | .isZero => Word.ofBool (a == 0)
  | .not => ~~~a

/-- The value of an operator on two words, the topmost first. -/
def BinaryOp.apply (a b : Word) : BinaryOp → Word
  | .add => a + b
  | .mul => a * b
  | .sub => a - b
  | .div => Word.quotient a b
  | .sdiv => Word.signedQuotient a b
  | .mod => Word.remainder a b
  | .smod => Word.signedRemainder a b
  | .exp => Word.power a b.toNat
  | .signExtend => Word.signExtend a b
  | .lt => Word.ofBool (a.ult b)
  | .gt => Word.ofBool (b.ult a)
  | .slt => Word.ofBool (Word.signedLess a b)
  | .sgt => Word.ofBool (Word.signedLess b a)
  | .eq => Word.ofBool (a == b)
  | .and => a &&& b
  | .or => a ||| b
  | .xor => a ^^^ b
  | .byte => Word.byte a b
  | .shl => Word.shiftLeft a b
  | .shr => Word.shiftRight a b
  | .sar => Word.arithmeticShiftRight a b

/-- The value of an operator on three words, the topmost first. -/
def TernaryOp.apply (a b c : Word) : TernaryOp → Word
  | .addMod => Word.addMod a b c
  | .mulMod => Word.mulMod a b c

end Machine

end LocalNode
