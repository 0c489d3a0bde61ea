import Console6502.Numeral

namespace Console6502

-- A write that memory drops is no fault, and no address is out of range.
inductive Fault where
  | invalidOpcode (opcode : UInt8) (pc : UInt16)
  | halted
  | limitReached (limit : Nat)
  | romTooLarge (size : Nat)
  | saveRamSize (size : Nat)
  deriving DecidableEq

open Numeral in
def Fault.message : Fault → String
  | .invalidOpcode opcode pc => "invalid opcode $" ++ hexByte opcode ++ " at $" ++ hexWord pc
  | .halted => "cpu is halted"
  | .limitReached limit => "cpu still running after " ++ decimal limit ++ " instructions"
  | .romTooLarge size => "rom image is " ++ decimal size ++ " bytes, at most 32768 fit"
  | .saveRamSize size => "save ram image is " ++ decimal size ++ " bytes, expected 8192"

end Console6502
