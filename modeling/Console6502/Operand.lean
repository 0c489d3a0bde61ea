import Console6502.Opcode.Mode
import Console6502.Transaction

namespace Console6502

-- An address may exceed 16 bits: it is masked when it is used, not before.
inductive Operand where
  | implied
  | accumulator
  | immediate (value : UInt8)
  | address (place : UInt32)
  | displacement (offset : Int8)
  deriving DecidableEq

def Registers.fetchByte (r : Registers) : Transaction (UInt8 × Registers) := do
  let byte ← .fetch r.pc.toUInt32
  return (byte,r.advance 1)

def Registers.fetchWord (r : Registers) : Transaction (UInt16 × Registers) := do
  let (low,r) ← r.fetchByte
  let (high,r) ← r.fetchByte
  return (word low high,r)

-- The high byte is taken from page zero too, so the pointer at 0xFF ends at 0x00.
def zeroPagePointer (base : UInt8) : Transaction UInt16 := do
  let low ← .fetch base.toUInt32
  let high ← .fetch (base + 1).toUInt32
  return word low high

-- Index sums inside page zero wrap there; index sums on a full address are kept whole.
def Mode.resolve (mode : Mode) (r : Registers) : Transaction (Operand × Registers) :=
  match mode with
  | .implied => return (.implied,r)
  | .accumulator => return (.accumulator,r)
  | .immediate => do
    let (value,r) ← r.fetchByte
    return (.immediate value,r)
  | .zeroPage => do
    let (base,r) ← r.fetchByte
    return (.address base.toUInt32,r)
  | .zeroPageX => do
    let (base,r) ← r.fetchByte
    return (.address (base + r.x).toUInt32,r)
  | .zeroPageY => do
    let (base,r) ← r.fetchByte
    return (.address (base + r.y).toUInt32,r)
  | .absolute => do
    let (base,r) ← r.fetchWord
    return (.address base.toUInt32,r)
  | .absoluteX => do
    let (base,r) ← r.fetchWord
    return (.address (base.toUInt32 + r.x.toUInt32),r)
  | .absoluteY => do
    let (base,r) ← r.fetchWord
    return (.address (base.toUInt32 + r.y.toUInt32),r)
  | .indirect => do
    let (pointer,r) ← r.fetchWord
    let target ← .fetchWord pointer.toUInt32
    return (.address target.toUInt32,r)
  | .indexedIndirect => do
    let (base,r) ← r.fetchByte
    let target ← zeroPagePointer (base + r.x)
    return (.address target.toUInt32,r)
  | .indirectIndexed => do
    let (base,r) ← r.fetchByte
    let target ← zeroPagePointer base
    return (.address (target.toUInt32 + r.y.toUInt32),r)
  | .relative => do
    let (offset,r) ← r.fetchByte
    return (.displacement offset.toInt8,r)

def Operand.value (operand : Operand) (r : Registers) : Transaction UInt8 :=
  match operand with
  | .immediate value => return value
  | .address place => .fetch place
  | .accumulator => return r.a
  | .implied | .displacement _ => return 0

end Console6502
