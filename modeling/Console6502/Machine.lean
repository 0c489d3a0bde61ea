import Console6502.Action

namespace Console6502

inductive Outcome where
  | running
  | halted
  deriving DecidableEq

structure Machine (σ : Type) where
  registers : Registers
  bus : Bus σ
  config : Config

-- An undocumented byte leaves every register but the ready flag as it was.
def Registers.step (r : Registers) (config : Config) :
    Transaction (Except Fault Outcome × Registers) := do
  if !r.ready then return (.error .halted,r)
  let byte ← .fetch r.pc.toUInt32
  match decode byte with
  | none =>
    .log (.undocumented byte r.pc)
    return (.error (.invalidOpcode byte r.pc),{ r with ready := false })
  | some opcode =>
    .log (.executing byte opcode.instruction r)
    let (operand,r) ← opcode.mode.resolve (r.advance 1)
    let r ← opcode.instruction.action.perform config operand r
    return (.ok (if r.ready then .running else .halted),r)

namespace Machine

variable {σ : Type}

def new (source : σ) (config : Config) : Machine σ := ⟨.initial,⟨.zero,source⟩,config⟩

variable [ByteSource σ]

def step (m : Machine σ) : Except Fault Outcome × Machine σ :=
  let ((result,registers),bus) := (m.registers.step m.config).run m.bus
  (result,{ m with registers := registers,bus := bus })

def stepEvents (m : Machine σ) : List Event := (m.registers.step m.config).events m.bus

end Machine

end Console6502
