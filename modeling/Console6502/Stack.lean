import Console6502.Transaction

namespace Console6502

-- A push writes first and moves after; a pull moves first and reads after.
def stackCell (pointer : UInt8) : UInt32 := stackPage ||| pointer.toUInt32

namespace Registers

def push (r : Registers) (value : UInt8) : Transaction Registers := do
  .store (stackCell r.sp) value
  return { r with sp := r.sp - 1 }

def pull (r : Registers) : Transaction (UInt8 × Registers) := do
  let pointer := r.sp + 1
  let value ← .fetch (stackCell pointer)
  return (value,{ r with sp := pointer })

def pushWord (r : Registers) (value : UInt16) : Transaction Registers := do
  let r ← r.push (highByte value)
  r.push (lowByte value)

def pullWord (r : Registers) : Transaction (UInt16 × Registers) := do
  let (low,r) ← r.pull
  let (high,r) ← r.pull
  return (word low high,r)

def pushStatus (r : Registers) : Transaction Registers := r.push r.p.pushed

def pullStatus (r : Registers) : Transaction Registers := do
  let (byte,r) ← r.pull
  return { r with p := ⟨byte⟩ }

end Registers

end Console6502
