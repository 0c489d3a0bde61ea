import Console6502.Config
import Console6502.Registers

namespace Console6502

-- Increment and decrement pass the carry through, so all six fit one read-modify-write path.
inductive Transform where
  | shiftLeft
  | shiftRight
  | rotateLeft
  | rotateRight
  | increment
  | decrement
  deriving DecidableEq

def Transform.apply (transform : Transform) (value : UInt8) (carry : Bool) : UInt8 × Bool :=
  match transform with
  | .shiftLeft => (value <<< 1,value &&& 0x80 != 0)
  | .shiftRight => (value >>> 1,value &&& 0x01 != 0)
  | .rotateLeft => ((value <<< 1) ||| carry.toUInt8,value &&& 0x80 != 0)
  | .rotateRight => ((value >>> 1) ||| (carry.toUInt8 <<< 7),value &&& 0x01 != 0)
  | .increment => (value + 1,carry)
  | .decrement => (value - 1,carry)

inductive Logic where
  | and
  | or
  | xor
  deriving DecidableEq

def Logic.apply : Logic → UInt8 → UInt8 → UInt8
  | .and,left,right => left &&& right
  | .or,left,right => left ||| right
  | .xor,left,right => left ^^^ right

-- Carry and borrow are read off the exact numbers and not off the byte.
def sum (left right : UInt8) (carry : Bool) : Nat := left.toNat + right.toNat + carry.toNat

def difference (left right : UInt8) (carry : Bool) : Int :=
  (left.toNat : Int) - right.toNat - (!carry).toNat

def sumOverflows (left right result : UInt8) : Bool :=
  (~~~(left ^^^ right)) &&& (left ^^^ result) &&& 0x80 != 0

def differenceOverflows (left right result : UInt8) : Bool :=
  (left ^^^ right) &&& (left ^^^ result) &&& 0x80 != 0

namespace Registers

def deriveOverflow (r : Registers) (rule : OverflowRule) (on : Bool) : Registers :=
  match rule with
  | .ignore => r
  | .derive => r.putFlag .overflow on

def add (r : Registers) (value : UInt8) (rule : OverflowRule) : Registers :=
  let total := sum r.a value (r.p.has .carry)
  let result := UInt8.ofNat total
  let carried := r.putFlag .carry (0xFF < total)
  (carried.deriveOverflow rule (sumOverflows r.a value result)).load .a result

def subtract (r : Registers) (value : UInt8) (rule : OverflowRule) : Registers :=
  let total := difference r.a value (r.p.has .carry)
  let result := UInt8.ofInt total
  let carried := r.putFlag .carry (0 ≤ total)
  (carried.deriveOverflow rule (differenceOverflows r.a value result)).load .a result

def compare (r : Registers) (left right : UInt8) : Registers :=
  ((r.putFlag .carry (right ≤ left)).putFlag .zero (left == right)).flags
    (·.withNegative (left - right))

def testBits (r : Registers) (value : UInt8) : Registers :=
  ((r.putFlag .zero (r.a &&& value == 0)).putFlag .negative (value &&& 0x80 != 0)).putFlag
    .overflow (value &&& 0x40 != 0)

def modify (r : Registers) (transform : Transform) : Registers :=
  let (result,carry) := transform.apply r.a (r.p.has .carry)
  (r.putFlag .carry carry).load .a result

def branch (r : Registers) (flag : Flag) (wanted : Bool) (offset : Int8) : Registers :=
  if r.p.has flag == wanted then r.advance offset.toInt16.toUInt16 else r

end Registers

end Console6502
