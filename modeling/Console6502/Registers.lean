import Console6502.Status

namespace Console6502

inductive Register where
  | a
  | x
  | y
  | sp
  deriving DecidableEq

-- `ready` is the run loop's own bit: no instruction can read it.
structure Registers where
  a : UInt8 := 0
  x : UInt8 := 0
  y : UInt8 := 0
  sp : UInt8 := 0xFD
  pc : UInt16 := 0
  p : Status := Status.initial
  ready : Bool := false
  deriving DecidableEq

def Registers.initial : Registers := {}

def Registers.get (r : Registers) : Register → UInt8
  | .a => r.a
  | .x => r.x
  | .y => r.y
  | .sp => r.sp

def Registers.put (r : Registers) (target : Register) (value : UInt8) : Registers :=
  match target with
  | .a => { r with a := value }
  | .x => { r with x := value }
  | .y => { r with y := value }
  | .sp => { r with sp := value }

def Registers.advance (r : Registers) (delta : UInt16) : Registers := { r with pc := r.pc + delta }

def Registers.flags (r : Registers) (change : Status → Status) : Registers :=
  { r with p := change r.p }

def Registers.putFlag (r : Registers) (flag : Flag) (on : Bool) : Registers :=
  r.flags (·.put flag on)

def Registers.load (r : Registers) (target : Register) (value : UInt8) : Registers :=
  (r.put target value).flags (·.withResult value)

end Console6502
