import Console6502.Numeral
import Console6502.Registers
import Console6502.Region
import Console6502.Opcode.Instruction

namespace Console6502

inductive Level where
  | warn
  | debug
  | trace
  deriving DecidableEq

-- The step that an event belongs to is told by its place in the list and not by the event.
inductive Event where
  | poweredOn (after : Registers)
  | resetTo (pc : UInt16)
  | executing (opcode : UInt8) (instruction : Instruction) (before : Registers)
  | discarded (value : UInt8) (address : UInt32)
  | undocumented (opcode : UInt8) (pc : UInt16)
  | halting (pc : UInt16)
  deriving DecidableEq

def Event.level : Event → Level
  | .undocumented _ _ => .warn
  | .poweredOn _ | .resetTo _ | .halting _ => .debug
  | .executing _ _ _ | .discarded _ _ => .trace

open Numeral in
def Event.text : Event → String
  | .poweredOn r =>
    "power on: A=" ++ hexByte r.a ++ " X=" ++ hexByte r.x ++ " Y=" ++ hexByte r.y ++
      " SP=" ++ hexByte r.sp ++ " P=" ++ hexByte r.p.byte
  | .resetTo pc => "reset: PC=$" ++ hexWord pc
  | .executing opcode instruction r =>
    hexWord r.pc ++ "  " ++ hexByte opcode ++ "  " ++ instruction.mnemonic ++
      "  A:" ++ hexByte r.a ++ " X:" ++ hexByte r.x ++ " Y:" ++ hexByte r.y ++ " P:" ++ hexByte r.p.byte ++
      " SP:" ++ hexByte r.sp
  | .discarded value address =>
    "discarded write $" ++ hexByte value ++ " -> $" ++ hexWord (masked address).toUInt16 ++
      " (" ++ (Region.ofAddress address).name ++ ")"
  | .undocumented opcode pc => "invalid opcode $" ++ hexByte opcode ++ " at $" ++ hexWord pc
  | .halting pc => "BRK at $" ++ hexWord pc ++ ": halting"

end Console6502
