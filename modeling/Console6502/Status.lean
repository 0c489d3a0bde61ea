namespace Console6502

-- `breakMark` and `unused` have no behaviour of their own: pushes set them, and nothing tests them.
inductive Flag where
  | carry
  | zero
  | interruptDisable
  | decimal
  | breakMark
  | unused
  | overflow
  | negative
  deriving DecidableEq

def Flag.all : List Flag :=
  [.carry,.zero,.interruptDisable,.decimal,.breakMark,.unused,.overflow,.negative]

def Flag.index : Flag → UInt8
  | .carry => 0
  | .zero => 1
  | .interruptDisable => 2
  | .decimal => 3
  | .breakMark => 4
  | .unused => 5
  | .overflow => 6
  | .negative => 7

def Flag.mask (flag : Flag) : UInt8 := 1 <<< flag.index

structure Status where
  byte : UInt8
  deriving DecidableEq

def Status.initial : Status := ⟨Flag.interruptDisable.mask ||| Flag.unused.mask⟩

-- Only the low three bits of the index count, so the shift is always below the width.
def Status.bit (s : Status) (index : UInt8) : UInt8 := (s.byte >>> (index &&& 7)) &&& 1

def Status.withBit (s : Status) (index value : UInt8) : Status :=
  let place := index &&& 7
  ⟨(s.byte &&& ~~~(1 <<< place)) ||| ((value &&& 1) <<< place)⟩

def Status.any (s : Status) (mask : UInt8) : Bool := s.byte &&& mask != 0

def Status.assign (s : Status) (mask : UInt8) (on : Bool) : Status :=
  if on then ⟨s.byte ||| mask⟩ else ⟨s.byte &&& ~~~mask⟩

def Status.has (s : Status) (flag : Flag) : Bool := s.any flag.mask

def Status.put (s : Status) (flag : Flag) (on : Bool) : Status := s.assign flag.mask on

def Status.withNegative (s : Status) (result : UInt8) : Status :=
  s.withBit Flag.negative.index (result >>> 7)

def Status.withResult (s : Status) (result : UInt8) : Status :=
  (s.withNegative result).withBit Flag.zero.index (result == 0).toUInt8

def Status.pushed (s : Status) : UInt8 := s.byte ||| Flag.breakMark.mask ||| Flag.unused.mask

theorem Status.pushed_eq (s : Status) : s.pushed = s.byte ||| 0x30 := UInt8.or_assoc _ _ _

end Console6502
