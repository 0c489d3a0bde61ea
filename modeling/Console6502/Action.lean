import Console6502.Arithmetic
import Console6502.Opcode.Table
import Console6502.Operand
import Console6502.Stack

namespace Console6502

-- Instructions that differ only in a register, a flag or an operation are one action with a
-- parameter.
inductive Action where
  | load (target : Register)
  | store (source : Register)
  | transfer (source target : Register)
  | setStackPointer
  | combine (logic : Logic)
  | testBits
  | add
  | subtract
  | compare (left : Register)
  | modify (transform : Transform)
  | count (target : Register) (delta : UInt8)
  | assign (flag : Flag) (on : Bool)
  | branch (flag : Flag) (wanted : Bool)
  | jump
  | call
  | leave
  | leaveInterrupt
  | enterBreak
  | pushAccumulator
  | pullAccumulator
  | pushStatus
  | pullStatus
  | idle
  deriving DecidableEq

def Instruction.action : Instruction → Action
  | .adc => .add
  | .and => .combine .and
  | .asl => .modify .shiftLeft
  | .bcc => .branch .carry false
  | .bcs => .branch .carry true
  | .beq => .branch .zero true
  | .bit => .testBits
  | .bmi => .branch .negative true
  | .bne => .branch .zero false
  | .bpl => .branch .negative false
  | .brk => .enterBreak
  | .bvc => .branch .overflow false
  | .bvs => .branch .overflow true
  | .clc => .assign .carry false
  | .cld => .assign .decimal false
  | .cli => .assign .interruptDisable false
  | .clv => .assign .overflow false
  | .cmp => .compare .a
  | .cpx => .compare .x
  | .cpy => .compare .y
  | .dec => .modify .decrement
  | .dex => .count .x (-1)
  | .dey => .count .y (-1)
  | .eor => .combine .xor
  | .inc => .modify .increment
  | .inx => .count .x 1
  | .iny => .count .y 1
  | .jmp => .jump
  | .jsr => .call
  | .lda => .load .a
  | .ldx => .load .x
  | .ldy => .load .y
  | .lsr => .modify .shiftRight
  | .nop => .idle
  | .ora => .combine .or
  | .pha => .pushAccumulator
  | .php => .pushStatus
  | .pla => .pullAccumulator
  | .plp => .pullStatus
  | .rol => .modify .rotateLeft
  | .ror => .modify .rotateRight
  | .rti => .leaveInterrupt
  | .rts => .leave
  | .sbc => .subtract
  | .sec => .assign .carry true
  | .sed => .assign .decimal true
  | .sei => .assign .interruptDisable true
  | .sta => .store .a
  | .stx => .store .x
  | .sty => .store .y
  | .tax => .transfer .a .x
  | .tay => .transfer .a .y
  | .tsx => .transfer .sp .x
  | .txa => .transfer .x .a
  | .txs => .setStackPointer
  | .tya => .transfer .y .a

namespace Registers

def modifyCell (r : Registers) (address : UInt32) (transform : Transform) :
    Transaction Registers := do
  let value ← .fetch address
  let (result,carry) := transform.apply value (r.p.has .carry)
  .store address result
  return (r.putFlag .carry carry).flags (·.withResult result)

-- An interrupt pushes the address after the padding byte, and then the status.
def enterBreak (r : Registers) : BreakRule → Transaction Registers
  | .halt => do
    .log (.halting (r.pc - 1))
    return { r with ready := false }
  | .interrupt => do
    let r ← r.pushWord (r.pc + 1)
    let r ← r.pushStatus
    let r := r.putFlag .interruptDisable true
    let pc ← .fetchWord interruptVector
    return { r with pc := pc }

end Registers

-- An operand of the wrong kind has no effect; the decode table pairs no action with one.
def Action.perform (action : Action) (config : Config) (operand : Operand) (r : Registers) :
    Transaction Registers :=
  match action with
  | .load target => do
    let value ← operand.value r
    return r.load target value
  | .store source =>
    match operand with
    | .address address => do
      .store address (r.get source)
      return r
    | _ => return r
  | .transfer source target => return r.load target (r.get source)
  | .setStackPointer => return r.put .sp r.x
  | .combine logic => do
    let value ← operand.value r
    return r.load .a (logic.apply r.a value)
  | .testBits => do
    let value ← operand.value r
    return r.testBits value
  | .add => do
    let value ← operand.value r
    return r.add value config.overflow
  | .subtract => do
    let value ← operand.value r
    return r.subtract value config.overflow
  | .compare left => do
    let value ← operand.value r
    return r.compare (r.get left) value
  | .modify transform =>
    match operand with
    | .accumulator => return r.modify transform
    | .address address => r.modifyCell address transform
    | _ => return r
  | .count target delta => return r.load target (r.get target + delta)
  | .assign flag on => return r.putFlag flag on
  | .branch flag wanted =>
    match operand with
    | .displacement offset => return r.branch flag wanted offset
    | _ => return r
  | .jump =>
    match operand with
    | .address target => return { r with pc := target.toUInt16 }
    | _ => return r
  | .call =>
    match operand with
    | .address target => do
      let r ← r.pushWord (r.pc - 1)
      return { r with pc := target.toUInt16 }
    | _ => return r
  | .leave => do
    let (pc,r) ← r.pullWord
    return { r with pc := pc + 1 }
  | .leaveInterrupt => do
    let r ← r.pullStatus
    let (pc,r) ← r.pullWord
    return { r with pc := pc }
  | .enterBreak => r.enterBreak config.onBreak
  | .pushAccumulator => r.push r.a
  | .pullAccumulator => do
    let (value,r) ← r.pull
    return r.load .a value
  | .pushStatus => r.pushStatus
  | .pullStatus => r.pullStatus
  | .idle => return r

end Console6502
